import EnvFill.Proofs.Results
import EnvFill.Proofs.Tree
import EnvFill.Storage.Resolve

/-!
# Places that are found

Along names that meet no link, a path is followed name by name. So the place of a file can be
predicted before the file is there, and it stays the same when a file is put there.
-/

namespace EnvFill.Storage

open Node

def IsName (name : String) : Prop := name ≠ "" ∧ name ≠ "." ∧ name ≠ ".."

instance : DecidablePred IsName := fun name =>
  inferInstanceAs (Decidable (name ≠ "" ∧ name ≠ "." ∧ name ≠ ".."))

theorem utf8ByteSize_ofList_replicate (count : Nat) (c : Char) :
    (String.ofList (List.replicate count c)).utf8ByteSize = count * c.utf8Size := by
  induction count with
  | zero => simp
  | succ count ih =>
    rw [List.replicate_succ, String.ofList_cons, String.utf8ByteSize_append, ih,
      String.utf8ByteSize_singleton, Nat.succ_mul, Nat.add_comm]

/-- A name that a file can have, but not its draft. -/
def longName : String := String.ofList (List.replicate 250 'x')

theorem toList_longName : longName.toList = List.replicate 250 'x' := String.toList_ofList

theorem utf8ByteSize_longName : longName.utf8ByteSize = 250 := utf8ByteSize_ofList_replicate 250 'x'

section Texts

variable {path : Pathname} {front back : List String}

theorem Disk.checkText_eq_ok_iff : Disk.checkText path = .ok () ↔
    path.hasZero = false ∧ path.toString.utf8ByteSize ≤ maxPathBytes := by
  unfold Disk.checkText
  split
  · rename_i hzero
    simp [hzero]
  · rename_i hzero
    split
    · rename_i hlong
      simp [Nat.not_le.mpr hlong]
    · rename_i hshort
      simpa [hzero] using hshort

theorem utf8ByteSize_joinParts_le (front back : List String) :
    (Pathname.joinParts front).utf8ByteSize ≤ (Pathname.joinParts (front ++ back)).utf8ByteSize := by
  rcases eq_or_ne front [] with rfl | hfront
  · exact Nat.zero_le _
  rcases eq_or_ne back [] with rfl | hback
  · rw [List.append_nil]
  have hjoin : Pathname.joinParts (front ++ back) =
      Pathname.joinParts front ++ "/" ++ Pathname.joinParts back :=
    String.intercalate_append_of_ne_nil hfront hback
  rw [hjoin, String.utf8ByteSize_append, String.utf8ByteSize_append]
  omega

theorem sum_utf8ByteSize_le_joinParts (names : List String) :
    (names.map String.utf8ByteSize).sum ≤ (Pathname.joinParts names).utf8ByteSize := by
  induction names with
  | nil => exact Nat.zero_le _
  | cons name names ih =>
    rcases eq_or_ne names [] with rfl | hnames
    · exact le_rfl
    have hjoin : Pathname.joinParts (name :: names) = name ++ "/" ++ Pathname.joinParts names :=
      String.intercalate_append_of_ne_nil (List.cons_ne_nil name []) hnames
    rw [hjoin, String.utf8ByteSize_append, String.utf8ByteSize_append, List.map_cons, List.sum_cons]
    omega

theorem utf8ByteSize_ofRoot (parts : List String) : (Pathname.ofRoot parts).toString.utf8ByteSize =
    1 + (Pathname.joinParts parts).utf8ByteSize := by
  have htext : (Pathname.ofRoot parts).toString = "/" ++ Pathname.joinParts parts := rfl
  rw [htext, String.utf8ByteSize_append]
  rfl

theorem utf8ByteSize_ofRoot_le (front back : List String) :
    (Pathname.ofRoot front).toString.utf8ByteSize ≤
      (Pathname.ofRoot (front ++ back)).toString.utf8ByteSize := by
  rw [utf8ByteSize_ofRoot, utf8ByteSize_ofRoot]
  exact Nat.add_le_add_left (utf8ByteSize_joinParts_le front back) 1

/-- What is above a path is a path as well. -/
theorem Disk.checkText_front (htext : Disk.checkText (.ofRoot (front ++ back)) = .ok ()) :
    Disk.checkText (.ofRoot front) = .ok () := by
  rw [Disk.checkText_eq_ok_iff] at htext ⊢
  obtain ⟨hzero, hsize⟩ := htext
  constructor
  · rw [Pathname.hasZero, Pathname.ofRoot, List.any_append, Bool.or_eq_false_iff] at hzero
    exact hzero.1
  · exact (utf8ByteSize_ofRoot_le front back).trans hsize

end Texts

section Looked

variable {disk : Disk} {path : Pathname} {found : Location} {bytes : List UInt8}

theorem Disk.findPlace_eq_some_iff :
    disk.findPlace path = .ok (some found) ↔ disk.locate? path = .ok found := by
  unfold Disk.findPlace
  cases disk.locate? path with
  | ok place => simp
  | error error =>
    dsimp only
    split <;> simp

theorem Disk.bytes?_eq_some_iff : disk.bytes? path = .ok (some bytes) ↔
    ∃ place, disk.locate? path = .ok place ∧ disk.top.get? place = some (.file bytes) := by
  have hbytes : ∀ node : Node, node.bytes? = some bytes ↔ node = .file bytes := by
    intro node
    cases node <;> simp [Node.bytes?]
  unfold Disk.bytes? Disk.find
  simp only [except_map_eq_ok_iff, Option.bind_eq_some_iff, exists_exists_and_eq_and]
  constructor
  · rintro ⟨_, hplace, node, ⟨place, rfl, hnode⟩, hfile⟩
    rw [hbytes] at hfile
    exact ⟨place, Disk.findPlace_eq_some_iff.mp hplace, hfile ▸ hnode⟩
  · rintro ⟨place, hplace, hfile⟩
    exact ⟨some place, Disk.findPlace_eq_some_iff.mpr hplace, _, ⟨place, rfl, hfile⟩, rfl⟩

end Looked

section Locate

variable {top : Node} {links : Nat} {place found : Location} {names : List String}

theorem isLinkFree_cons {name : String} {rest : List String}
    (hfree : IsLinkFree (place ++ name :: rest) top) :
    (∀ target, top.get? (place ++ [name]) ≠ some (.link target)) ∧
      IsLinkFree ((place ++ [name]) ++ rest) top := by
  rw [List.append_assoc]
  exact ⟨hfree _ ⟨rest, by simp⟩, hfree⟩

/-- Along names, a path leads to where they say, if something is there. -/
theorem locateFrom?_eq_ok_iff (hnames : ∀ name ∈ names, IsName name)
    (hfree : IsLinkFree (place ++ names) top) :
    locateFrom? top links place names = .ok found ↔
      found = place ++ names ∧ (∀ name ∈ names, isTooLong name = false) ∧
        (names = [] ∨ (top.get? (place ++ names)).isSome) := by
  induction names generalizing place with
  | nil =>
    rw [locateFrom?, Except.ok.injEq, List.append_nil]
    simp only [List.not_mem_nil, false_implies, implies_true, true_or, and_true]
    exact eq_comm
  | cons name rest ih =>
    obtain ⟨-, hdot, hdots⟩ := hnames name List.mem_cons_self
    obtain ⟨hlink, hrest⟩ := isLinkFree_cons hfree
    have hih := ih (fun other hother => hnames other (List.mem_cons_of_mem name hother)) hrest
    have happend : place ++ name :: rest = (place ++ [name]) ++ rest := by simp
    rw [locateFrom?, if_neg hdot, if_neg hdots, happend, get?_append (place ++ [name]) rest]
    by_cases hlong : isTooLong name = true
    · simp [hlong]
    rw [if_neg hlong]
    cases hget : top.get? (place ++ [name]) with
    | none => simp
    | some node =>
      cases node with
      | dir entries =>
        have hbind : rest = [] → ((some (Node.dir entries)).bind (get? rest)).isSome := by
          rintro rfl
          rfl
        rw [get?_append, hget] at hih
        simp only [hih, List.mem_cons, forall_eq_or_imp, List.cons_ne_nil, false_or]
        constructor
        · rintro ⟨hfound, hshort, hsome⟩
          exact ⟨hfound, ⟨by simpa using hlong, hshort⟩, hsome.elim hbind id⟩
        · rintro ⟨hfound, ⟨-, hshort⟩, hsome⟩
          exact ⟨hfound, hshort, .inr hsome⟩
      | file bytes =>
        cases rest with
        | nil =>
          have hshort : isTooLong name = false := by simpa using hlong
          simp only [List.isEmpty_nil, if_true, Except.ok.injEq, List.append_nil,
            List.mem_singleton, forall_eq, hshort, Option.bind_some, get?, Option.isSome_some,
            or_true, and_true]
          exact eq_comm
        | cons next rest => simp [get?, entries]
      | link target => exact absurd hget (hlink target)

/-- Along names, a path that asks for a directory leads to one. -/
theorem locateFrom?_directory (hnames : ∀ name ∈ names, IsName name)
    (hfree : IsLinkFree (place ++ names) top)
    (hfound : locateFrom? top links place (names ++ ["."]) = .ok found) :
    found = place ++ names ∧ (∀ name ∈ names, isTooLong name = false) ∧
      (names = [] ∨ ∃ entries, top.get? (place ++ names) = some (.dir entries)) := by
  induction names generalizing place with
  | nil =>
    rw [List.nil_append, locateFrom?, if_pos rfl, locateFrom?, Except.ok.injEq] at hfound
    simp [hfound]
  | cons name rest ih =>
    obtain ⟨-, hdot, hdots⟩ := hnames name List.mem_cons_self
    obtain ⟨hlink, hrest⟩ := isLinkFree_cons hfree
    have happend : place ++ name :: rest = (place ++ [name]) ++ rest := by simp
    rw [List.cons_append, locateFrom?, if_neg hdot, if_neg hdots] at hfound
    by_cases hlong : isTooLong name = true
    · simp [hlong] at hfound
    rw [if_neg hlong] at hfound
    cases hget : top.get? (place ++ [name]) with
    | none => simp [hget] at hfound
    | some node =>
      cases node with
      | dir entries =>
        simp only [hget] at hfound
        obtain ⟨rfl, hshort, hdir⟩ :=
          ih (fun other hother => hnames other (List.mem_cons_of_mem name hother)) hrest hfound
        refine ⟨happend.symm, ?_, .inr ?_⟩
        · intro other hother
          rcases List.mem_cons.mp hother with rfl | hother
          · simpa using hlong
          · exact hshort other hother
        · rw [happend]
          rcases hdir with rfl | hdir
          · exact ⟨entries, by simpa using hget⟩
          · exact hdir
      | file bytes => simp [hget] at hfound
      | link target => exact absurd hget (hlink target)

/-- Along names, a path is stopped because nothing is there or because a name is too long. -/
theorem locateFrom?_error {error : DiskError} (hnames : ∀ name ∈ names, IsName name)
    (hfree : IsLinkFree (place ++ names) top)
    (herror : locateFrom? top links place names = .error error) :
    (error = .missing ∨ error = .notDirectory) ∧ top.get? (place ++ names) = none ∨
      error = .nameTooLong ∧ ∃ name ∈ names, isTooLong name = true := by
  induction names generalizing place with
  | nil => simp [locateFrom?] at herror
  | cons name rest ih =>
    obtain ⟨-, hdot, hdots⟩ := hnames name List.mem_cons_self
    obtain ⟨hlink, hrest⟩ := isLinkFree_cons hfree
    have happend : place ++ name :: rest = (place ++ [name]) ++ rest := by simp
    rw [locateFrom?, if_neg hdot, if_neg hdots] at herror
    by_cases hlong : isTooLong name = true
    · rw [if_pos hlong, Except.error.injEq] at herror
      exact .inr ⟨herror.symm, name, List.mem_cons_self, hlong⟩
    rw [if_neg hlong] at herror
    rw [happend]
    cases hget : top.get? (place ++ [name]) with
    | none =>
      simp only [hget, Except.error.injEq] at herror
      exact .inl ⟨.inl herror.symm, by rw [get?_append, hget, Option.bind_none]⟩
    | some node =>
      cases node with
      | dir entries =>
        simp only [hget] at herror
        have hih :=
          ih (fun other hother => hnames other (List.mem_cons_of_mem name hother)) hrest herror
        refine hih.imp_right ?_
        rintro ⟨heq, other, hother, htoo⟩
        exact ⟨heq, other, List.mem_cons_of_mem name hother, htoo⟩
      | file bytes =>
        simp only [hget] at herror
        cases rest with
        | nil => simp at herror
        | cons next rest =>
          refine .inl ⟨.inr (Except.error.inj herror).symm, ?_⟩
          rw [get?_append, hget]
          rfl
      | link target => exact absurd hget (hlink target)

end Locate

/-! ### Names of places -/

theorem isName_of_mem_withoutParents {parts : List String} :
    ∀ name ∈ Pathname.withoutParents parts, IsName name := by
  induction parts using List.reverseRecOn with
  | nil => simp [Pathname.withoutParents]
  | append_singleton parts part ih =>
    rw [Pathname.withoutParents, List.foldl_append, List.foldl_cons, List.foldl_nil, ← Pathname.withoutParents, Pathname.addPart]
    split
    · exact fun name hname => ih name ((List.dropLast_sublist _).subset hname)
    split
    · exact ih
    · rename_i hdots hdot
      intro name hname
      rcases List.mem_append.mp hname with hname | hname
      · exact ih name hname
      · rw [List.mem_singleton.mp hname]
        simp only [Bool.or_eq_true, decide_eq_true_eq, not_or] at hdot
        exact ⟨hdot.2, hdot.1, hdots⟩

variable {disk : Disk} {path : Pathname} {place : Location}

theorem Disk.resolve_eq_ok (hplace : disk.resolve path = .ok place) :
    path.hasZero = false ∧
      place = Pathname.withoutParents
        (resolveFrom disk.top disk.top.linkCount [] (disk.startOf path) path.parts).steps := by
  unfold Disk.resolve at hplace
  split at hplace
  · simp at hplace
  · rename_i hzero
    dsimp only at hplace
    split at hplace
    · simp at hplace
    · exact ⟨by simpa using hzero, (Except.ok.inj hplace).symm⟩

theorem Disk.isName_of_resolve (hplace : disk.resolve path = .ok place) :
    ∀ name ∈ place, IsName name := by
  rw [(Disk.resolve_eq_ok hplace).2]
  exact isName_of_mem_withoutParents

/-- Where a path leads depends on the links only. -/
theorem resolveFrom_congr {top top' : Node}
    (hlinks : ∀ here target, top'.get? here = some (.link target) ↔
      top.get? here = some (.link target))
    (depth : Nat) (met : LinksMet) (start : Location) (steps : List String) :
    resolveFrom top' depth met start steps = resolveFrom top depth met start steps := by
  fun_induction resolveFrom top depth met start steps with
  | case1 => rw [resolveFrom]
  | case2 depth met place step rest hskip ih => rw [resolveFrom, if_pos hskip, ih]
  | case3 depth met place rest hskip ih => rw [resolveFrom, if_neg hskip, if_pos rfl, ih]
  | case4 depth met place step rest hskip hparent here target hlink goal hmet ih =>
    have hlink' := (hlinks here target).mpr hlink
    simp only [here] at hlink' hmet
    rw [resolveFrom, if_neg hskip, if_neg hparent]
    simp only [hlink', hmet, ih]
  | case5 depth met place step rest hskip hparent here target hlink hmet =>
    have hlink' := (hlinks here target).mpr hlink
    simp only [here] at hlink' hmet
    rw [resolveFrom, if_neg hskip, if_neg hparent]
    simp only [hlink', hmet, here]
  | case6 met place step rest hskip hparent here target hlink hmet =>
    have hlink' := (hlinks here target).mpr hlink
    simp only [here] at hlink' hmet
    rw [resolveFrom, if_neg hskip, if_neg hparent]
    simp only [hlink', hmet, here]
  | case7 met place step rest hskip hparent here target hlink hmet depth inner hcomplete ih₃ ih₂ ih₁ =>
    have hlink' := (hlinks here target).mpr hlink
    simp only [here] at hlink' hmet
    rw [resolveFrom, if_neg hskip, if_neg hparent]
    simp only [hlink', hmet, ih₂]
    exact (if_pos hcomplete).trans ih₁
  | case8 met place step rest hskip hparent here target hlink hmet depth inner hcomplete ih =>
    have hlink' := (hlinks here target).mpr hlink
    simp only [here] at hlink' hmet
    rw [resolveFrom, if_neg hskip, if_neg hparent]
    simp only [hlink', hmet]
    rw [ih, if_neg hcomplete]
  | case9 depth met place step rest hskip hparent here hnone ih =>
    rw [resolveFrom, if_neg hskip, if_neg hparent]
    dsimp only
    split
    · rename_i target hlink
      exact absurd ((hlinks _ target).mp hlink) (hnone target)
    · exact ih

/-! ### Trees of one shape -/

theorem exists_some_of_rel {α β : Type} {R : α → β → Prop} {one : Option α} {two : Option β} {a : α}
    (hrel : Option.Rel R one two) (hone : one = some a) : ∃ b, two = some b ∧ R a b := by
  subst hone
  cases hrel with
  | some hsame => exact ⟨_, rfl, hsame⟩

inductive SameKind : Node → Node → Prop where
  | file (one two : List UInt8) : SameKind (.file one) (.file two)
  | link (target : String) : SameKind (.link target) (.link target)
  | dir (entries others : List (String × Node)) : SameKind (.dir entries) (.dir others)

theorem SameKind.refl (node : Node) : SameKind node node := by
  cases node with
  | file bytes => exact .file bytes bytes
  | link target => exact .link target
  | dir entries => exact .dir entries entries

def SameShape (one two : Node) : Prop :=
  ∀ place : Location, Option.Rel SameKind (one.get? place) (two.get? place)

namespace SameShape

variable {one two node : Node} (hshape : SameShape one two)

include hshape

theorem exists_twin (hone : one.get? place = some node) :
    ∃ twin, two.get? place = some twin ∧ SameKind node twin :=
  exists_some_of_rel (hshape place) hone

theorem get?_eq_link_iff (target : String) :
    two.get? place = some (.link target) ↔ one.get? place = some (.link target) := by
  have hplace := hshape place
  generalize one.get? place = here at hplace ⊢
  generalize two.get? place = there at hplace ⊢
  cases hplace with
  | none => exact Iff.rfl
  | some hsame => cases hsame <;> simp

/-- A path is followed in the same way on both trees. -/
theorem locateFrom?_eq (links : Nat) (place : Location) (steps : List String) :
    locateFrom? one links place steps = locateFrom? two links place steps := by
  fun_induction locateFrom? one links place steps with
  | case1 links place => rw [locateFrom?]
  | case2 links place rest ih => rw [locateFrom?, if_pos rfl, ih]
  | case3 links place rest hdot ih => rw [locateFrom?, if_neg hdot, if_pos rfl, ih]
  | case4 links place step rest hdot hdots hlong =>
    rw [locateFrom?, if_neg hdot, if_neg hdots, if_pos hlong]
  | case5 links place step rest hdot hdots hshort hget =>
    have htwin := hshape (place ++ [step])
    rw [hget] at htwin
    rw [locateFrom?, if_neg hdot, if_neg hdots, if_neg hshort]
    generalize two.get? (place ++ [step]) = found at htwin
    cases htwin
    rfl
  | case6 links place step rest hdot hdots hshort entries hget ih =>
    obtain ⟨twin, htwin, hsame⟩ := hshape.exists_twin hget
    rw [locateFrom?, if_neg hdot, if_neg hdots, if_neg hshort, htwin]
    cases hsame
    exact ih
  | case7 links place step rest hdot hdots hshort bytes hget hnil =>
    obtain ⟨twin, htwin, hsame⟩ := hshape.exists_twin hget
    rw [locateFrom?, if_neg hdot, if_neg hdots, if_neg hshort, htwin]
    cases hsame
    exact (if_pos hnil).symm
  | case8 links place step rest hdot hdots hshort bytes hget hnil =>
    obtain ⟨twin, htwin, hsame⟩ := hshape.exists_twin hget
    rw [locateFrom?, if_neg hdot, if_neg hdots, if_neg hshort, htwin]
    cases hsame
    exact (if_neg hnil).symm
  | case9 place step rest hdot hdots hshort target hget =>
    rw [locateFrom?, if_neg hdot, if_neg hdots, if_neg hshort,
      (hshape.get?_eq_link_iff target).mpr hget]
  | case10 place step rest hdot hdots hshort target hget links ih =>
    rw [locateFrom?, if_neg hdot, if_neg hdots, if_neg hshort,
      (hshape.get?_eq_link_iff target).mpr hget]
    exact ih

end SameShape

/-- What is there stays of its kind when a file is put where there is a file or nothing. -/
theorem exists_twin_put {node old : Node} {place other : Location} {content : Option (List UInt8)}
    (hcontent : node.get? place = content.map .file) (bytes : List UInt8) (hold : node.get? other = some old) :
    ∃ twin, (put (.file bytes) place node).get? other = some twin ∧ SameKind old twin := by
  by_cases hroom : HasRoom place node
  swap
  · rw [put_of_not_hasRoom hroom]
    exact ⟨old, hold, .refl old⟩
  by_cases hbelow : place <+: other
  · obtain ⟨below, rfl⟩ := hbelow
    rw [get?_append, hcontent] at hold
    cases content with
    | none => cases hold
    | some before =>
      cases below with
      | nil =>
        obtain rfl := Option.some.inj hold
        exact ⟨.file bytes, by rw [List.append_nil, get?_put_self hroom], .file before bytes⟩
      | cons name below => cases hold
  · by_cases habove : other <+: place
    · obtain ⟨back, rfl⟩ := habove
      have hback : back ≠ [] := fun hnil => hbelow (by simp [hnil])
      obtain ⟨entries, rfl⟩ := exists_dir_of_hasRoom hback hroom hold
      obtain ⟨later, hlater⟩ := exists_dir_get?_put hback hroom
      exact ⟨.dir later, hlater, .dir entries later⟩
    · exact ⟨old, by rw [get?_put_of_apart hbelow habove, hold], .refl old⟩

/-- A path that leads somewhere leads there after a file is put where there is a file or nothing. -/
theorem locateFrom?_put {top : Node} {links : Nat} {start place found : Location} {steps : List String}
    {content : Option (List UInt8)} (hcontent : top.get? place = content.map .file) (bytes : List UInt8)
    (hfound : locateFrom? top links start steps = .ok found) :
    locateFrom? (put (.file bytes) place top) links start steps = .ok found := by
  have htwin : ∀ {here old}, top.get? here = some old →
      ∃ twin, (put (.file bytes) place top).get? here = some twin ∧ SameKind old twin :=
    fun hold => exists_twin_put hcontent bytes hold
  fun_induction locateFrom? top links start steps with
  | case1 links start => rwa [locateFrom?]
  | case2 links start rest ih => rw [locateFrom?, if_pos rfl, ih hfound]
  | case3 links start rest hdot ih => rw [locateFrom?, if_neg hdot, if_pos rfl, ih hfound]
  | case4 => cases hfound
  | case5 => cases hfound
  | case6 links start step rest hdot hdots hshort entries hget ih =>
    obtain ⟨_, hlater, ⟨⟩⟩ := htwin hget
    rw [locateFrom?, if_neg hdot, if_neg hdots, if_neg hshort, hlater]
    exact ih hfound
  | case7 links start step rest hdot hdots hshort before hget hnil =>
    obtain ⟨_, hlater, ⟨⟩⟩ := htwin hget
    rw [locateFrom?, if_neg hdot, if_neg hdots, if_neg hshort, hlater]
    exact (if_pos hnil).trans hfound
  | case8 => cases hfound
  | case9 => cases hfound
  | case10 start step rest hdot hdots hshort target hget links ih =>
    obtain ⟨_, hlater, ⟨⟩⟩ := htwin hget
    rw [locateFrom?, if_neg hdot, if_neg hdots, if_neg hshort, hlater]
    exact ih hfound

end EnvFill.Storage
