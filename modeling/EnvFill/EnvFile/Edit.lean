import EnvFill.EnvFile.Entries

/-!
Edits of a file that touch only the lines they own. Both work on the lines as bytes: settings are
replaced where they stand or added at the end, and every other line keeps its bytes.
-/

namespace EnvFill.EnvFile

open Text

def linesOf (content : Option (List UInt8)) : List (List UInt8) :=
  match content with
  | none => []
  | some bytes => byteLines bytes

def keyOf? (line : List UInt8) : Option (List Glyph) := Line.key? (Utf8.decode line)

def glyphs (key : String) : List Glyph := key.toList.map .char

def isBlankLine (line : List UInt8) : Bool := isAllBlank (Utf8.decode line)

def settingLine (key value : String) : List UInt8 :=
  Utf8.encodeText (key.toList ++ '=' :: Value.format value.toList)

def separator : String := "# Added by envsetter"

def isSeparator (line : List UInt8) : Bool := strip (Utf8.decode line) == glyphs separator

/-- The setting of `entries` that a line holds an older form of. -/
def settingFor? (entries : Entries) (line : List UInt8) : Option (String × String) :=
  (keyOf? line).bind fun key => entries.toList.find? fun pair => glyphs pair.1 == key

def updateLine (entries : Entries) (line : List UInt8) : List UInt8 :=
  match settingFor? entries line with
  | some (key, value) => settingLine key value
  | none => line

def absentFrom (lines : List (List UInt8)) (entries : Entries) : List (String × String) :=
  let present := lines.filterMap keyOf?
  entries.toList.filter fun pair => !present.contains (glyphs pair.1)

/-- The lines with settings added at the end, under the separator if there are lines above. -/
def addSettings (added : List (String × String)) (lines : List (List UInt8)) : List (List UInt8) :=
  if added.isEmpty then lines
  else
    let kept := dropEndWhile isBlankLine lines
    let divider :=
      if kept.isEmpty || kept.any isSeparator then [] else [[], Utf8.encodeText separator.toList]
    kept ++ divider ++ added.map fun (key, value) => settingLine key value

def setEntries (entries : Entries) (content : Option (List UInt8)) : List UInt8 :=
  let lines := linesOf content
  joinByteLines (addSettings (absentFrom lines entries) (lines.map (updateLine entries)))

def templateHeader : List String :=
  ["# Environment variables used by this project",
    "# Copy this file to .env and fill in the values"]

def missingKeys (content : Option (List UInt8)) (keys : List String) : List String :=
  let present := (linesOf content).filterMap keyOf?
  let absent := keys.filter fun key => !present.contains (glyphs key)
  absent.foldl (fun missing key => if missing.contains key then missing else missing ++ [key]) []

def addKeys (content : Option (List UInt8)) (missing : List String) : List UInt8 :=
  let above :=
    match content with
    | none => templateHeader.map fun line => Utf8.encodeText line.toList
    | some _ => dropEndWhile isBlankLine (linesOf content)
  let divider := if above.isEmpty then [] else [[]]
  joinByteLines (above ++ divider ++ missing.map fun key => Utf8.encodeText (key.toList ++ ['=']))

end EnvFill.EnvFile
