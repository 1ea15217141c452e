import RubyOutline.Proofs.Json.Ascii
import RubyOutline.ReportDocument

/-!
Reports read back from their texts. A document tells a report by the names of its members,
and whoever looks each record up by these names gets the report again that the document was
made of. So a report is printed in ASCII and without loss: no two reports have one text.
-/

namespace RubyOutline

open Text (WideText)

theorem Text.wide_injective : Function.Injective wide := by
  intro s t h
  have hnarrow := narrow_wide s
  rw [h, narrow_wide] at hnarrow
  exact (Except.ok.inj hnarrow).symm

/-! ### Looking into a document -/

namespace Json

/-- The value of a member of a document that is an object. -/
def field? (v : Json WideText) (name : String) : Option (Json WideText) :=
  match v with
  | object members => member? members (Text.wide name)
  | _ => none

def text? : Json WideText → Option String
  | string t => (Text.narrow t).toOption
  | _ => none

/-- The items of an array, each of them read. -/
def list? {α : Type} (read : Json WideText → Option α) : Json WideText → Option (List α)
  | array items => items.mapM read
  | _ => none

/-- What is read, or nothing where the document is `null`. -/
def nullable? {α : Type} (read : Json WideText → Option α) : Json WideText → Option (Option α)
  | null => some none
  | v => (read v).map some

def natural? : Json WideText → Option Nat
  | int n => if 0 ≤ n then some n.toNat else none
  | _ => none

theorem mapItems_eq_map {σ τ : Type} (f : σ → τ) (vs : List (Json σ)) :
    mapItems f vs = vs.map (map f) := by
  induction vs with
  | nil => rfl
  | cons v vs ih => rw [mapItems, ih, List.map_cons]

theorem mapMembers_eq_map {σ τ : Type} (f : σ → τ) (members : List (σ × Json σ)) :
    mapMembers f members = members.map fun (name, v) => (f name, v.map f) := by
  induction members with
  | nil => rfl
  | cons member members ih => rw [mapMembers, ih, List.map_cons]

theorem field?_map_object (members : List (String × Json String)) (name : String) :
    ((object members).map Text.wide).field? name = (member? members name).map (map Text.wide) := by
  rw [map, field?, mapMembers_eq_map, member?, member?, ← List.map_reverse, List.find?_map]
  simp only [Function.comp_def, Text.wide_injective.eq_iff, Option.map_map]

theorem text?_map_string (s : String) : ((string s).map Text.wide).text? = some s := by
  rw [map, text?, Text.narrow_wide]
  rfl

theorem nullable?_map_null {α : Type} (read : Json WideText → Option α) :
    (null.map Text.wide).nullable? read = some none := rfl

theorem nullable?_map_string (s : String) :
    ((string s).map Text.wide).nullable? text? = some (some s) :=
  congrArg (Option.map some) (text?_map_string s)

theorem list?_map_array {α : Type} {read : Json WideText → Option α} {write : α → Json String}
    (h : ∀ a, read ((write a).map Text.wide) = some a) (as : List α) :
    ((array (as.map write)).map Text.wide).list? read = some as := by
  rw [map, list?, mapItems_eq_map]
  induction as with
  | nil => rfl
  | cons a as ih =>
    simp only [List.map_cons, List.mapM_cons, h, ih]
    rfl

end Json

/-! ### Records and their documents -/

open Json

def lineOfDocument? : Json WideText → Option (Option Nat) := nullable? natural?

def Mention.ofDocument? (v : Json WideText) : Option (Mention (Option Nat)) := do
  return ⟨← (← v.field? "name").text?, ← lineOfDocument? (← v.field? "line_number")⟩

def Condition.ofDocument? (v : Json WideText) : Option (Condition (Option Nat)) := do
  return ⟨← (← v.field? "condition").text?, ← lineOfDocument? (← v.field? "line_number")⟩

def MethodOutline.ofDocument? (v : Json WideText) : Option (MethodOutline (Option Nat)) := do
  return {
    name := ← (← v.field? "name").text?
    arguments := ← (← v.field? "arguments").list? text?
    line := ← lineOfDocument? (← v.field? "line_number")
    instanceVariables := ← (← v.field? "instance_variables").list? Mention.ofDocument?
    localVariables := ← (← v.field? "local_variables").list? Mention.ofDocument?
    calls := ← (← v.field? "method_calls").list? Mention.ofDocument?
    conditions := ← (← v.field? "conditionals").list? Condition.ofDocument? }

def ClassOutline.ofDocument? (v : Json WideText) : Option (ClassOutline (Option Nat)) := do
  return {
    name := ← (← v.field? "class_name").text?
    superclass := ← (← v.field? "inherits_from").nullable? text?
    line := ← lineOfDocument? (← v.field? "line_number")
    methods := ← (← v.field? "methods").list? MethodOutline.ofDocument? }

/-- The report that a document tells, by classes if it has a member for them. -/
def Report.ofDocument? (v : Json WideText) : Option (Report (Option Nat)) :=
  match v.field? "classes" with
  | some cs => (cs.list? ClassOutline.ofDocument?).map .classes
  | none => do
    let ms ← (← v.field? "top_level").field? "methods"
    return .topLevel (← ms.list? MethodOutline.ofDocument?)

theorem lineOfDocument?_document (line : Option Nat) :
    lineOfDocument? ((lineDocument line).map Text.wide) = some line := by
  cases line with
  | none => rfl
  | some n => simp [lineDocument, Json.map, lineOfDocument?, nullable?, natural?]

theorem Mention.ofDocument?_document (m : Mention (Option Nat)) :
    ofDocument? (m.document.map Text.wide) = some m := by
  simp [ofDocument?, document, field?_map_object, member?, text?_map_string,
    lineOfDocument?_document]

theorem Condition.ofDocument?_document (c : Condition (Option Nat)) :
    ofDocument? (c.document.map Text.wide) = some c := by
  simp [ofDocument?, document, field?_map_object, member?, text?_map_string,
    lineOfDocument?_document]

theorem MethodOutline.ofDocument?_document (m : MethodOutline (Option Nat)) :
    ofDocument? (m.document.map Text.wide) = some m := by
  simp [ofDocument?, document, field?_map_object, member?, text?_map_string,
    lineOfDocument?_document, list?_map_array text?_map_string,
    list?_map_array Mention.ofDocument?_document, list?_map_array Condition.ofDocument?_document]

theorem ClassOutline.ofDocument?_document (c : ClassOutline (Option Nat)) :
    ofDocument? (c.document.map Text.wide) = some c := by
  obtain ⟨name, superclass, line, methods⟩ := c
  cases superclass <;>
    simp [ofDocument?, document, field?_map_object, member?, text?_map_string,
      nullable?_map_null, nullable?_map_string, lineOfDocument?_document,
      list?_map_array MethodOutline.ofDocument?_document]

theorem Report.ofDocument?_document (report : Report (Option Nat)) :
    ofDocument? (report.document.map Text.wide) = some report := by
  cases report with
  | classes cs =>
    simp [ofDocument?, document, field?_map_object, member?,
      list?_map_array ClassOutline.ofDocument?_document]
  | topLevel ms =>
    simp [ofDocument?, document, field?_map_object, member?,
      list?_map_array MethodOutline.ofDocument?_document]

/-! ### The numbers in a report are whole -/

theorem Json.areWhole_map {σ α : Type} {write : α → Json σ} (h : ∀ a, (write a).isWhole = true)
    (as : List α) : areWhole (as.map write) = true := by
  induction as with
  | nil => rfl
  | cons a as ih => rw [List.map_cons, areWhole, h, ih, Bool.and_self]

theorem isWhole_lineDocument (line : Option Nat) : (lineDocument line).isWhole = true := by
  cases line <;> rfl

theorem Mention.isWhole_document (m : Mention (Option Nat)) : m.document.isWhole = true := by
  simp [document, isWhole, membersWhole, isWhole_lineDocument]

theorem Condition.isWhole_document (c : Condition (Option Nat)) : c.document.isWhole = true := by
  simp [document, isWhole, membersWhole, isWhole_lineDocument]

theorem MethodOutline.isWhole_document (m : MethodOutline (Option Nat)) :
    m.document.isWhole = true := by
  have hstring (s : String) : (string s).isWhole = true := rfl
  simp [document, isWhole, membersWhole, isWhole_lineDocument, areWhole_map hstring,
    areWhole_map Mention.isWhole_document, areWhole_map Condition.isWhole_document]

theorem ClassOutline.isWhole_document (c : ClassOutline (Option Nat)) :
    c.document.isWhole = true := by
  obtain ⟨name, superclass, line, methods⟩ := c
  cases superclass <;>
    simp [document, isWhole, membersWhole, isWhole_lineDocument,
      areWhole_map MethodOutline.isWhole_document]

theorem Report.isWhole_document (report : Report (Option Nat)) :
    report.document.isWhole = true := by
  cases report with
  | classes cs =>
    simp [document, isWhole, membersWhole, areWhole_map ClassOutline.isWhole_document]
  | topLevel ms =>
    simp [document, isWhole, membersWhole, areWhole_map MethodOutline.isWhole_document]

/-! ### Texts of reports -/

namespace Report

/-- A report as it is printed for people. -/
def text (report : Report (Option Nat)) : String := Json.render .indented report.document

/-- The report that a JSON text tells. -/
def ofText? (text : String) : Option (Report (Option Nat)) :=
  match Json.read Limits.none (Text.wide text) with
  | .ok v => ofDocument? v
  | .error _ => none

theorem ofText?_text (report : Report (Option Nat)) : ofText? report.text = some report := by
  have hread := Json.read_render .indented report.document report.isWhole_document
  rw [ofText?, text, hread]
  exact ofDocument?_document report

theorem isAscii_text (report : Report (Option Nat)) : IsAscii report.text.toList :=
  Json.isAscii_render rfl report.document report.isWhole_document

-- A character outside the basic plane is printed as two code units.
example : text (.classes [⟨"É😀", none, some 1, []⟩]) =
    "\x7b\n  \"classes\": [\n    \x7b\n      \"class_name\": \"\\u00c9\\ud83d\\ude00\",\n" ++
    "      \"inherits_from\": null,\n      \"line_number\": 1,\n      \"methods\": []\n" ++
    "    \x7d\n  ]\n\x7d" := by
  decide +kernel

theorem text_injective : Function.Injective text := by
  intro report report' h
  have hsome : some report = some report' := by
    rw [← ofText?_text report, h, ofText?_text report']
  exact Option.some.inj hsome

end Report

end RubyOutline
