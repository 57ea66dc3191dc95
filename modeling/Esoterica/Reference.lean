import Esoterica.Json
import Esoterica.Options
import Esoterica.Reference.Chapter

/-!
The instruction reference as a text with headings and as a JSON document.
-/

namespace Esoterica

/-- The reference for some languages. -/
structure Reference where
  languages : List Language

namespace Reference

/-- The version of the programs that the reference describes. -/
def version : String := "0.1.0"

def description : String :=
  "esovm runs five esoteric machines behind one lifecycle: decode the instruction under the " ++
    "pointer, execute it, advance, and stop on halt, fault or a resource limit."

/-- The limits of a run without options. -/
def limits : Options := {}

/-- The reference for all languages. -/
def full : Reference := ⟨Language.all⟩

/-- The reference for one language, or for all of them. -/
def about (language : Option Language) : Reference :=
  match language with
  | some language => ⟨[language]⟩
  | none => full

/-- An instruction as an item of a list. -/
def entryText (entry : Entry) : String :=
  s!"- \x60{entry.encoding}\x60 **{entry.name}**: {entry.description}\n"

def groupText (group : Group) : String :=
  s!"### {group.name}\n" ++ String.join (group.entries.map entryText) ++ "\n"

def chapterText (language : Language) : String :=
  let chapter := Chapter.of language
  s!"## {language.name} ({language.title})\n\n{chapter.description}\n\n" ++
    s!"**Memory**: {chapter.memory}\n\n" ++ String.join (chapter.groups.map groupText)

/-- The reference as a text with headings. -/
def toText (reference : Reference) : String :=
  s!"# esovm instruction reference\n\n{description}\n\n" ++
    s!"**Limits**: {limits.maxCycles} cycles, {limits.maxTime}ms, " ++
    s!"{limits.maxOutput} output characters by default\n\n" ++
    String.join (reference.languages.map chapterText)

def entryJson (entry : Entry) : Json :=
  .record [
    ("name", .text entry.name),
    ("encoding", .text entry.encoding),
    ("description", .text entry.description)]

def groupJson (group : Group) : Json :=
  .record [
    ("name", .text group.name),
    ("opcodes", .array (group.entries.map entryJson))]

def chapterJson (language : Language) : Json :=
  let chapter := Chapter.of language
  .record [
    ("name", .text language.name),
    ("dialect", .text language.title),
    ("aliases", .array (language.aliases.map .text)),
    ("description", .text chapter.description),
    ("memory", .text chapter.memory),
    ("categories", .array (chapter.groups.map groupJson))]

def limitsJson : Json :=
  .record [
    ("max_cycles", .nat limits.maxCycles),
    ("max_time_ms", .nat limits.maxTime),
    ("max_output", .nat limits.maxOutput)]

/-- The reference as a JSON document. -/
def toJson (reference : Reference) : Json :=
  .record [
    ("version", .text version),
    ("description", .text description),
    ("languages", .array (reference.languages.map chapterJson)),
    ("limits", limitsJson)]

end Reference

end Esoterica
