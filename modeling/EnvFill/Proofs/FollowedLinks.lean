import EnvFill.Proofs.Folders

/-!
# Paths through links

On a disk on which no links lead in a circle every path can be followed to its end. What it stands for
is then the end that it has, to which no link leads, and this depends on the links of the disk alone.
-/

namespace EnvFill.Storage

open Node

variable {top : Node} {place goal other : Location} {steps : List String} {count more : Nat}

/-- Following `steps` from `place` ends at `goal`. The count is of the steps that this takes, those
along the paths written in links among them. -/
inductive Follows (top : Node) : Location → List String → Location → Nat → Prop where
  | done {place : Location} : Follows top place [] place 0
  | stay {place goal : Location} {step : String} {rest : List String} {count : Nat}
      (hstep : step = "" ∨ step = ".") (hrest : Follows top place rest goal count) :
      Follows top place (step :: rest) goal (count + 1)
  | up {place goal : Location} {rest : List String} {count : Nat}
      (hrest : Follows top place.dropLast rest goal count) :
      Follows top place (".." :: rest) goal (count + 1)
  | down {place goal : Location} {name : String} {rest : List String} {count : Nat}
      (hname : IsName name) (hlink : ∀ target, top.get? (place ++ [name]) ≠ some (.link target))
      (hrest : Follows top (place ++ [name]) rest goal count) :
      Follows top place (name :: rest) goal (count + 1)
  | through {place middle goal : Location} {name target : String} {rest : List String}
      {inner count : Nat} (hname : IsName name)
      (hlink : top.get? (place ++ [name]) = some (.link target))
      (hinner : Follows top (linkStart place target) (components target) middle inner)
      (hrest : Follows top middle rest goal count) :
      Follows top place (name :: rest) goal (inner + count + 1)

def LinkLeads (top : Node) (here goal : Location) (count : Nat) : Prop :=
  ∃ target, top.get? here = some (.link target) ∧
    Follows top (linkStart here.dropLast target) (components target) goal count

/-- Every link lies in a directory and can be followed to an end. A link in a circle has none. -/
def HasNoLinkCycles (top : Node) : Prop :=
  ∀ here target, top.get? here = some (.link target) →
    here ≠ [] ∧ ∃ goal count, LinkLeads top here goal count

theorem hasNoLinkCycles_of_linkCount (hcount : top.linkCount = 0) : HasNoLinkCycles top :=
  fun here target hlink =>
    absurd hlink (isLinkFree_of_linkCount hcount here here List.prefix_rfl target)

theorem eq_or_isName (step : String) : (step = "" ∨ step = ".") ∨ step = ".." ∨ IsName step := by
  unfold IsName
  tauto

theorem Follows.unique (hone : Follows top place steps goal count)
    (htwo : Follows top place steps other more) : goal = other ∧ count = more := by
  induction hone generalizing other more with
  | done =>
    cases htwo
    exact ⟨rfl, rfl⟩
  | stay hstep hrest ih =>
    cases htwo with
    | stay _ hrest' =>
      obtain ⟨rfl, rfl⟩ := ih hrest'
      exact ⟨rfl, rfl⟩
    | up => simp at hstep
    | down hname => exact (hstep.elim hname.1 hname.2.1).elim
    | through hname => exact (hstep.elim hname.1 hname.2.1).elim
  | up hrest ih =>
    cases htwo with
    | stay hstep => simp at hstep
    | up hrest' =>
      obtain ⟨rfl, rfl⟩ := ih hrest'
      exact ⟨rfl, rfl⟩
    | down hname => exact absurd rfl hname.2.2
    | through hname => exact absurd rfl hname.2.2
  | down hname hlink hrest ih =>
    cases htwo with
    | stay hstep => exact (hstep.elim hname.1 hname.2.1).elim
    | up => exact absurd rfl hname.2.2
    | down _ _ hrest' =>
      obtain ⟨rfl, rfl⟩ := ih hrest'
      exact ⟨rfl, rfl⟩
    | through _ hlink' => exact absurd hlink' (hlink _)
  | through hname hlink hinner hrest ihInner ih =>
    cases htwo with
    | stay hstep => exact (hstep.elim hname.1 hname.2.1).elim
    | up => exact absurd rfl hname.2.2
    | down _ hlink' => exact absurd hlink (hlink' _)
    | through _ hlink' hinner' hrest' =>
      obtain rfl := Node.link.inj (Option.some.inj (hlink.symm.trans hlink'))
      obtain ⟨rfl, rfl⟩ := ihInner hinner'
      obtain ⟨rfl, rfl⟩ := ih hrest'
      exact ⟨rfl, rfl⟩

theorem LinkLeads.unique {here : Location} (hone : LinkLeads top here goal count)
    (htwo : LinkLeads top here other more) : goal = other ∧ count = more := by
  obtain ⟨target, hlink, hfollows⟩ := hone
  obtain ⟨_, hlink', hfollows'⟩ := htwo
  obtain rfl := Node.link.inj (Option.some.inj (hlink.symm.trans hlink'))
  exact hfollows.unique hfollows'

theorem isPrefix_linkStart (place : Location) (target : String) : linkStart place target <+: place := by
  unfold linkStart
  split
  · exact List.nil_prefix
  · exact List.prefix_rfl

/-- A path that begins where no link leads ends there too. -/
theorem Follows.isLinkFree (hfollows : Follows top place steps goal count)
    (hfree : IsLinkFree place top) : IsLinkFree goal top := by
  induction hfollows with
  | done => exact hfree
  | stay hstep hrest ih => exact ih hfree
  | up hrest ih => exact ih (hfree.of_front (List.dropLast_prefix _))
  | down hname hlink hrest ih =>
    refine ih fun front hfront target => ?_
    rcases List.prefix_concat_iff.mp hfront with rfl | hfront
    · exact hlink target
    · exact hfree front hfront target
  | through hname hlink hinner hrest ihInner ih =>
    exact ih (ihInner (hfree.of_front (isPrefix_linkStart _ _)))

theorem Follows.isName (hfollows : Follows top place steps goal count)
    (hnames : ∀ name ∈ place, IsName name) : ∀ name ∈ goal, IsName name := by
  induction hfollows with
  | done => exact hnames
  | stay hstep hrest ih => exact ih hnames
  | up hrest ih => exact ih fun name hname => hnames name ((List.dropLast_prefix _).subset hname)
  | down hname hlink hrest ih =>
    refine ih fun other hother => ?_
    rcases List.mem_append.mp hother with hother | hother
    · exact hnames other hother
    · exact List.mem_singleton.mp hother ▸ hname
  | through hname hlink hinner hrest ihInner ih =>
    exact ih (ihInner fun name hmem => hnames name ((isPrefix_linkStart _ _).subset hmem))

theorem exists_follows (hcycles : HasNoLinkCycles top) (place : Location) (steps : List String) :
    ∃ goal count, Follows top place steps goal count := by
  induction steps generalizing place with
  | nil => exact ⟨place, 0, .done⟩
  | cons step rest ih =>
    rcases eq_or_isName step with hstep | rfl | hname
    · obtain ⟨goal, count, hrest⟩ := ih place
      exact ⟨goal, count + 1, .stay hstep hrest⟩
    · obtain ⟨goal, count, hrest⟩ := ih place.dropLast
      exact ⟨goal, count + 1, .up hrest⟩
    · by_cases hlink : ∃ target, top.get? (place ++ [step]) = some (.link target)
      · obtain ⟨target, hlink⟩ := hlink
        obtain ⟨-, middle, inner, _, hlink', hinner⟩ := hcycles _ target hlink
        obtain rfl := Node.link.inj (Option.some.inj (hlink.symm.trans hlink'))
        rw [List.dropLast_concat] at hinner
        obtain ⟨goal, count, hrest⟩ := ih middle
        exact ⟨goal, inner + count + 1, .through hname hlink hinner hrest⟩
      · obtain ⟨goal, count, hrest⟩ := ih (place ++ [step])
        exact ⟨goal, count + 1, .down hname (not_exists.mp hlink) hrest⟩

section Links

variable {top' : Node} (hlinks : ∀ here target, top'.get? here = some (.link target) ↔
  top.get? here = some (.link target))

include hlinks

theorem Follows.congr (hfollows : Follows top place steps goal count) :
    Follows top' place steps goal count := by
  induction hfollows with
  | done => exact .done
  | stay hstep hrest ih => exact .stay hstep ih
  | up hrest ih => exact .up ih
  | down hname hlink hrest ih =>
    exact .down hname (fun target hlink' => hlink target ((hlinks _ target).mp hlink')) ih
  | through hname hlink hinner hrest ihInner ih =>
    exact .through hname ((hlinks _ _).mpr hlink) ihInner ih

theorem HasNoLinkCycles.congr (hcycles : HasNoLinkCycles top) : HasNoLinkCycles top' := by
  intro here target hlink
  obtain ⟨hne, goal, count, other, hother, hfollows⟩ := hcycles here target ((hlinks _ _).mp hlink)
  exact ⟨hne, goal, count, other, (hlinks _ _).mpr hother, hfollows.congr hlinks⟩

end Links

/-- The links met while the paths of those in `pending` are being followed: the others are known, each
with the place that it leads to. -/
structure IsMet (top : Node) (met : LinksMet) (pending : List Location) : Prop where
  known : ∀ here goal, met.lookup here = some (some goal) → ∃ count, LinkLeads top here goal count
  pending_iff : ∀ here, met.lookup here = some none ↔ here ∈ pending
  nodup : pending.Nodup

section Met

variable {met : LinksMet} {pending : List Location} {here : Location}

theorem lookup_met_cons (here other : Location) (mark : Option Location) (met : LinksMet) :
    List.lookup other ((here, mark) :: met) = if other = here then some mark else met.lookup other := by
  rw [List.lookup_cons]
  split
  · rename_i heq
    rw [if_pos (eq_of_beq heq)]
  · rename_i hne
    rw [if_neg (ne_of_beq_false hne)]

theorem IsMet.start (hmet : IsMet top met pending) (hnew : met.lookup here = none) :
    IsMet top ((here, none) :: met) (here :: pending) := by
  have hnotMem : here ∉ pending := by
    rw [← hmet.pending_iff, hnew]
    simp
  refine ⟨fun other goal hother => ?_, fun other => ?_, List.nodup_cons.mpr ⟨hnotMem, hmet.nodup⟩⟩
  · rw [lookup_met_cons] at hother
    split at hother
    · cases hother
    · exact hmet.known other goal hother
  · rw [lookup_met_cons, List.mem_cons]
    split
    · rename_i heq
      exact iff_of_true rfl (.inl heq)
    · rename_i hne
      rw [hmet.pending_iff, or_iff_right hne]

theorem IsMet.finish (hmet : IsMet top met (here :: pending)) (hleads : LinkLeads top here goal count) :
    IsMet top ((here, some goal) :: met) pending := by
  obtain ⟨hnotMem, hnodup⟩ := List.nodup_cons.mp hmet.nodup
  refine ⟨fun other found hother => ?_, fun other => ?_, hnodup⟩
  · rw [lookup_met_cons] at hother
    split at hother
    · rename_i heq
      obtain rfl := Option.some.inj (Option.some.inj hother)
      exact ⟨count, heq ▸ hleads⟩
    · exact hmet.known other found hother
  · rw [lookup_met_cons]
    split
    · rename_i heq
      exact iff_of_false (by simp) (heq ▸ hnotMem)
    · rename_i hne
      rw [hmet.pending_iff, List.mem_cons, or_iff_right hne]

/-- What the links in `pending` lead to takes at least `count` steps each. -/
def TakesSteps (top : Node) (pending : List Location) (count : Nat) : Prop :=
  ∀ here ∈ pending, ∃ goal longer, LinkLeads top here goal longer ∧ count ≤ longer

theorem TakesSteps.mono (hsteps : TakesSteps top pending more) (hle : count ≤ more) :
    TakesSteps top pending count := by
  intro here hhere
  obtain ⟨goal, longer, hleads, hmore⟩ := hsteps here hhere
  exact ⟨goal, longer, hleads, hle.trans hmore⟩

theorem takesSteps_nil (top : Node) (count : Nat) : TakesSteps top [] count :=
  List.forall_mem_nil _

theorem TakesSteps.cons (hleads : LinkLeads top here goal count) (hsteps : TakesSteps top pending count) :
    TakesSteps top (here :: pending) count :=
  List.forall_mem_cons.mpr ⟨⟨goal, count, hleads, le_rfl⟩, hsteps⟩

theorem TakesSteps.length_le (hsteps : TakesSteps top pending count) (hnodup : pending.Nodup) :
    pending.length ≤ top.linkCount := by
  refine length_le_linkCount hnodup fun here hhere => ?_
  obtain ⟨_, _, ⟨target, hlink, -⟩, -⟩ := hsteps here hhere
  exact ⟨target, hlink⟩

/-- A path that has an end is followed to it. Links whose paths are being followed take at least as
many steps as are to come, so none of them is met again, and there are no more of them than links. -/
theorem Follows.exists_resolveFrom_eq (hfollows : Follows top place steps goal count) {depth : Nat}
    (hmet : IsMet top met pending) (hsteps : TakesSteps top pending count)
    (hdepth : top.linkCount ≤ depth + pending.length) :
    ∃ met', IsMet top met' pending ∧ resolveFrom top depth met place steps = ⟨met', goal, true⟩ := by
  induction hfollows generalizing depth met pending with
  | done => exact ⟨met, hmet, by rw [resolveFrom]⟩
  | stay hstep hrest ih =>
    rw [resolveFrom, if_pos (by simpa using hstep)]
    exact ih hmet (hsteps.mono (Nat.le_succ _)) hdepth
  | up hrest ih =>
    rw [resolveFrom, if_neg (by simp), if_pos rfl]
    exact ih hmet (hsteps.mono (Nat.le_succ _)) hdepth
  | @down place goal name rest count hname hlink hrest ih =>
    rw [resolveFrom, if_neg (by simp [hname.1, hname.2.1]), if_neg hname.2.2]
    dsimp only
    split
    · rename_i target hget
      exact absurd hget (hlink target)
    · exact ih hmet (hsteps.mono (Nat.le_succ _)) hdepth
  | @through place middle goal name target rest inner count hname hlink hinner hrest ihInner ih =>
    rw [resolveFrom, if_neg (by simp [hname.1, hname.2.1]), if_neg hname.2.2]
    have hleads : LinkLeads top (place ++ [name]) middle inner :=
      ⟨target, hlink, by rwa [List.dropLast_concat]⟩
    have hstepsRest : TakesSteps top pending count := hsteps.mono (by omega)
    simp only [hlink]
    cases hlookup : met.lookup (place ++ [name]) with
    | some mark =>
      cases mark with
      | some found =>
        obtain ⟨_, hfound⟩ := hmet.known _ _ hlookup
        obtain ⟨rfl, -⟩ := hleads.unique hfound
        exact ih hmet hstepsRest hdepth
      | none =>
        obtain ⟨_, longer, hends, hle⟩ := hsteps _ ((hmet.pending_iff _).mp hlookup)
        obtain ⟨-, rfl⟩ := hleads.unique hends
        omega
    | none =>
      have hmetInner := hmet.start hlookup
      have hstepsInner : TakesSteps top ((place ++ [name]) :: pending) inner :=
        .cons hleads (hsteps.mono (by omega))
      have hpending := hstepsInner.length_le hmetInner.nodup
      rw [List.length_cons] at hpending
      cases depth with
      | zero => omega
      | succ depth =>
        have hdepthInner : top.linkCount ≤ depth + ((place ++ [name]) :: pending).length := by
          rw [List.length_cons]
          omega
        obtain ⟨metInner, hmetInner', hresolved⟩ := ihInner hmetInner hstepsInner hdepthInner
        dsimp only
        rw [hresolved, if_pos rfl]
        exact ih (hmetInner'.finish hleads) hstepsRest hdepth

end Met

section Resolve

variable {disk after : Disk} {path : Pathname}

theorem isLinkFree_nil (hcycles : HasNoLinkCycles top) : IsLinkFree [] top := by
  intro front hfront target hlink
  exact (hcycles front target hlink).1 (List.prefix_nil.mp hfront)

/-- **A path stands for its end**, if it begins at a place that no link leads to. -/
theorem Follows.resolve_eq_of_start (hnames : ∀ name ∈ disk.startOf path, IsName name)
    (hfree : IsLinkFree (disk.startOf path) disk.top)
    (hfollows : Follows disk.top (disk.startOf path) path.parts goal count) (hzero : path.hasZero = false) :
    disk.resolve path = .ok goal := by
  have hnamesGoal : ∀ name ∈ goal, IsName name := hfollows.isName hnames
  have hfreeGoal : IsLinkFree goal disk.top := hfollows.isLinkFree hfree
  have hempty : IsMet disk.top [] [] := ⟨by simp, by simp, List.nodup_nil⟩
  have hbound : disk.top.linkCount ≤ disk.top.linkCount + ([] : List Location).length := le_rfl
  obtain ⟨met, -, hresolved⟩ := hfollows.exists_resolveFrom_eq hempty (takesSteps_nil _ _) hbound
  unfold Disk.resolve
  rw [hzero, if_neg Bool.false_ne_true, hresolved]
  dsimp only
  rw [withoutParents_of_isName hnamesGoal]
  split
  · rename_i hmany
    exact absurd hmany (Disk.locate?_ofRoot_ne_tooManyLinks hnamesGoal hfreeGoal)
  · rfl

/-- The place that a path stands for is where following it ends. -/
theorem Disk.exists_follows_of_resolve (hcycles : HasNoLinkCycles disk.top)
    (hnames : ∀ name ∈ disk.startOf path, IsName name) (hfree : IsLinkFree (disk.startOf path) disk.top)
    (hplace : disk.resolve path = .ok place) :
    ∃ count, Follows disk.top (disk.startOf path) path.parts place count := by
  obtain ⟨goal, count, hfollows⟩ := exists_follows hcycles (disk.startOf path) path.parts
  have hgoal := hfollows.resolve_eq_of_start hnames hfree (Disk.resolve_eq_ok hplace).1
  obtain rfl := Except.ok.inj (hplace.symm.trans hgoal)
  exact ⟨count, hfollows⟩

theorem Follows.resolve_eq (hcycles : HasNoLinkCycles disk.top) (hroot : path.isAbsolute = true)
    (hfollows : Follows disk.top [] path.parts goal count) (hzero : path.hasZero = false) :
    disk.resolve path = .ok goal := by
  have hstart : disk.startOf path = [] := if_pos hroot
  apply Follows.resolve_eq_of_start
  · rw [hstart]
    exact List.forall_mem_nil _
  · rw [hstart]
    exact isLinkFree_nil hcycles
  · rwa [hstart]
  · exact hzero

theorem Disk.resolve_eq_ok_iff (hcycles : HasNoLinkCycles disk.top) (hroot : path.isAbsolute = true) :
    disk.resolve path = .ok place ↔
      path.hasZero = false ∧ ∃ count, Follows disk.top [] path.parts place count := by
  constructor
  · intro hplace
    obtain ⟨hzero, -⟩ := Disk.resolve_eq_ok hplace
    obtain ⟨goal, count, hfollows⟩ := exists_follows hcycles [] path.parts
    obtain rfl := Except.ok.inj (hplace.symm.trans (hfollows.resolve_eq hcycles hroot hzero))
    exact ⟨hzero, count, hfollows⟩
  · rintro ⟨hzero, count, hfollows⟩
    exact hfollows.resolve_eq hcycles hroot hzero

/-- No link leads to the place that a path stands for. -/
theorem Disk.isLinkFree_of_resolve (hcycles : HasNoLinkCycles disk.top)
    (hroot : path.isAbsolute = true) (hplace : disk.resolve path = .ok place) :
    IsLinkFree place disk.top := by
  obtain ⟨-, count, hfollows⟩ := (Disk.resolve_eq_ok_iff hcycles hroot).mp hplace
  exact hfollows.isLinkFree (isLinkFree_nil hcycles)

theorem Disk.resolve_congr (hcycles : HasNoLinkCycles disk.top) (hroot : path.isAbsolute = true)
    (hlinks : ∀ here target, after.top.get? here = some (.link target) ↔
      disk.top.get? here = some (.link target)) :
    after.resolve path = .ok place ↔ disk.resolve path = .ok place := by
  rw [Disk.resolve_eq_ok_iff (hcycles.congr hlinks) hroot, Disk.resolve_eq_ok_iff hcycles hroot]
  refine and_congr_right fun _ => exists_congr fun count => ?_
  exact ⟨fun hfollows => hfollows.congr fun here target => (hlinks here target).symm,
    fun hfollows => hfollows.congr hlinks⟩

end Resolve

end EnvFill.Storage
