import Mathlib.Algebra.Order.Ring.Nat
import RubyOutline.Outline
import RubyOutline.Proofs.Lineage

/-!
Which classes and methods a report lists. Classes and methods may stand in each
other in any order and to any depth, and every class is searched for methods by
a walk of its own. So a method is listed by every class around it, and the
records of a program can be counted in two ways: by the classes that list them
and by the methods they stand for.
-/

namespace RubyOutline

namespace Place

/-- The class definitions that a walk comes to, in pre-order. -/
def classNodes (p : Place) : List Place := p.walk.filter (·.type == "class")

/-- The method definitions that a walk comes to, in pre-order. -/
def methodNodes (p : Place) : List Place := p.walk.filter (·.type == "method")

def methodRecord (source : ByteArray) (p : Place) : MethodOutline (Option Nat) :=
  (p.methodOutline source).map Token.line?

def classRecord (source : ByteArray) (p : Place) : ClassOutline (Option Nat) :=
  (p.classOutline source).map Token.line?

open Classical in
/-- The classes around a place that stand at or below another one. -/
noncomputable def classesAround (p m : Place) : List Place :=
  m.ancestors.filter fun a => a.type = "class" ∧ p.Encloses a

theorem mem_classNodes {p c : Place} : c ∈ p.classNodes ↔ p.Reaches c ∧ c.type = "class" := by
  simp [classNodes, mem_walk_iff]

theorem mem_methodNodes {p m : Place} : m ∈ p.methodNodes ↔ p.Reaches m ∧ m.type = "method" := by
  simp [methodNodes, mem_walk_iff]

theorem mem_classesAround {p m c : Place} :
    c ∈ classesAround p m ↔ c ∈ m.ancestors ∧ c.type = "class" ∧ p.Encloses c := by
  simp [classesAround]

/-! ### What a report lists -/

theorem classDefinitions_eq_classNodes (p : Place) : p.classDefinitions = p.classNodes := by
  rw [classDefinitions, collect_eq_filter, classNodes]
  refine List.filter_congr fun q _ => ?_
  rw [Bool.eq_iff_iff, beq_iff_eq, beq_iff_eq, kind_eq_classDefinition_iff]

theorem methodDefinitions_eq_methodNodes (p : Place) : p.methodDefinitions = p.methodNodes := by
  rw [methodDefinitions, collect_eq_filter, methodNodes]
  refine List.filter_congr fun q _ => ?_
  rw [Bool.eq_iff_iff, beq_iff_eq, beq_iff_eq, kind_eq_methodDefinition_iff]

theorem map_methodOutlines (source : ByteArray) (p : Place) :
    (p.methodOutlines source).map (·.map Token.line?) =
      p.methodNodes.map (methodRecord source) := by
  rw [methodOutlines, methodDefinitions_eq_methodNodes, List.map_map]
  rfl

theorem methods_classRecord (source : ByteArray) (c : Place) :
    (c.classRecord source).methods = c.methodNodes.map (methodRecord source) :=
  map_methodOutlines source c

theorem report_eq_topLevel (source : ByteArray) {p : Place} (h : p.classNodes = []) :
    p.report source = .topLevel (p.methodNodes.map (methodRecord source)) := by
  rw [report, outline, classDefinitions_eq_classNodes, h, ← map_methodOutlines]
  rfl

theorem report_eq_classes (source : ByteArray) {p : Place} (h : p.classNodes ≠ []) :
    p.report source = .classes (p.classNodes.map (classRecord source)) := by
  rw [report, outline, classDefinitions_eq_classNodes]
  cases hc : p.classNodes with
  | nil => exact absurd hc h
  | cons c cs =>
    simp only [Report.map, List.map_map]
    rfl

theorem methods_infix {source : ByteArray} {c d : Place} (h : c.Reaches d) :
    (d.classRecord source).methods <:+: (c.classRecord source).methods := by
  rw [methods_classRecord, methods_classRecord]
  exact ((walk_infix_of_mem (mem_walk_iff.2 h)).filter _).map _

/-! ### Counting the records of methods -/

theorem nodup_ancestors (p : Place) : p.ancestors.Nodup := by
  induction p with
  | top l cs => exact List.nodup_nil
  | inside parent i l cs ih =>
    refine List.nodup_cons.2 ⟨fun h => ?_, ih⟩
    exact Nat.lt_irrefl _ (length_ancestors_lt h)

/-- A method that is reached is listed by the classes around it and by no other. -/
theorem mem_classesAround_iff {p m c : Place} (hm : m ∈ p.methodNodes) :
    c ∈ classesAround p m ↔ c ∈ p.classNodes ∧ m ∈ c.methodNodes := by
  obtain ⟨hpm, htype⟩ := mem_methodNodes.1 hm
  rw [mem_classesAround, mem_classNodes, mem_methodNodes]
  constructor
  · rintro ⟨hc, hclass, hpc⟩
    obtain ⟨hpc, hcm⟩ := hpm.of_mem_ancestors hc hpc
    exact ⟨⟨hpc, hclass⟩, hcm, htype⟩
  · rintro ⟨⟨hpc, hclass⟩, hcm, -⟩
    have hmem : c ∈ m :: m.ancestors := hcm.encloses.lineage_suffix.subset List.mem_cons_self
    rcases List.mem_cons.1 hmem with rfl | hmem
    · -- A class is no method, so the class stands strictly above.
      rw [hclass] at htype
      contradiction
    · exact ⟨hmem, hclass, hpc.encloses⟩

open Classical in
theorem countP_classNodes {p m : Place} (hm : m ∈ p.methodNodes) :
    p.classNodes.countP (fun c => m ∈ c.methodNodes) = (classesAround p m).length := by
  rw [List.countP_eq_length_filter]
  refine List.Perm.length_eq ((List.perm_ext_iff_of_nodup ?_ ?_).2 fun c => ?_)
  · exact ((nodup_walk p).filter _).filter _
  · exact (nodup_ancestors m).filter _
  · rw [mem_classesAround_iff hm]
    simp

open Classical in
theorem length_methodNodes {p c : Place} (hc : p.Reaches c) :
    c.methodNodes.length = p.methodNodes.countP (fun m => m ∈ c.methodNodes) := by
  rw [List.countP_eq_length_filter]
  refine List.Perm.length_eq ((List.perm_ext_iff_of_nodup ?_ ?_).2 fun m => ?_)
  · exact (nodup_walk c).filter _
  · exact ((nodup_walk p).filter _).filter _
  · have hsub := (walk_infix_of_mem (mem_walk_iff.2 hc)).subset
    simp only [List.mem_filter, decide_eq_true_eq, iff_and_self]
    intro hm
    exact List.mem_filter.2 ⟨hsub (List.mem_filter.1 hm).1, (List.mem_filter.1 hm).2⟩

theorem sum_countP_comm {α β : Type} (related : α → β → Bool) (xs : List α) (ys : List β) :
    (xs.map fun x => ys.countP (related x)).sum =
      (ys.map fun y => xs.countP fun x => related x y).sum := by
  induction xs with
  | nil => simp
  | cons x xs ih =>
    rw [List.map_cons, List.sum_cons, ih]
    clear ih
    induction ys with
    | nil => rfl
    | cons y ys ih =>
      simp only [List.map_cons, List.sum_cons, List.countP_cons] at ih ⊢
      omega

theorem sum_length_methodNodes (p : Place) :
    (p.classNodes.map fun c => c.methodNodes.length).sum =
      (p.methodNodes.map fun m => (classesAround p m).length).sum := by
  classical
  calc (p.classNodes.map fun c => c.methodNodes.length).sum
      = (p.classNodes.map fun c => p.methodNodes.countP fun m => m ∈ c.methodNodes).sum := by
        refine congrArg List.sum (List.map_congr_left fun c hc => ?_)
        exact length_methodNodes (mem_classNodes.1 hc).1
    _ = (p.methodNodes.map fun m => p.classNodes.countP fun c => m ∈ c.methodNodes).sum :=
        sum_countP_comm _ _ _
    _ = (p.methodNodes.map fun m => (classesAround p m).length).sum := by
        refine congrArg List.sum (List.map_congr_left fun m hm => ?_)
        exact countP_classNodes hm

/-! ### The report -/

open Classical in
/-- What is said by a report on the classes at and below a place. -/
structure ClassCensus (source : ByteArray) (p : Place)
    (cs : List (ClassOutline (Option Nat))) : Prop where
  nonempty : cs ≠ []
  /-- One record for every class definition, in pre-order. -/
  classes : cs = p.classNodes.map (classRecord source)
  /-- Every class lists the methods below it, in pre-order. -/
  methods : ∀ c ∈ p.classNodes,
    (c.classRecord source).methods = c.methodNodes.map (methodRecord source)
  /-- A class inside another one lists a contiguous part of the methods of that one. -/
  nested : ∀ c ∈ p.classNodes, ∀ d ∈ p.classNodes, c.Encloses d →
    (d.classRecord source).methods <:+: (c.classRecord source).methods
  /-- A method is listed by as many classes as there are around it. -/
  listed : ∀ m ∈ p.methodNodes,
    p.classNodes.countP (fun c => m ∈ c.methodNodes) = (classesAround p m).length
  /-- So every method has as many records as there are classes around it. -/
  total : (cs.map fun c => c.methods.length).sum =
    (p.methodNodes.map fun m => (classesAround p m).length).sum

theorem classCensus (source : ByteArray) {p : Place} (h : p.classNodes ≠ []) :
    ClassCensus source p (p.classNodes.map (classRecord source)) where
  nonempty := by simpa using h
  classes := rfl
  methods c _ := methods_classRecord source c
  nested c hc d hd hcd :=
    methods_infix (reaches_of_encloses (mem_classNodes.1 hc).1 (mem_classNodes.1 hd).1 hcd)
  listed _ hm := countP_classNodes hm
  total := by
    rw [List.map_map, ← sum_length_methodNodes]
    refine congrArg List.sum (List.map_congr_left fun c _ => ?_)
    rw [Function.comp_apply, methods_classRecord, List.length_map]

/-- A program is reported by its classes exactly when a class is reached, and then
the report is a census of them; any other is reported by the methods reached, one
record each, in pre-order. -/
theorem report_census (source : ByteArray) (p : Place) :
    ((∃ cs, p.report source = .classes cs) ↔ ∃ c, p.Reaches c ∧ c.type = "class") ∧
      (∀ cs, p.report source = .classes cs → ClassCensus source p cs) ∧
      ((¬ ∃ c, p.Reaches c ∧ c.type = "class") →
        p.report source = .topLevel (p.methodNodes.map (methodRecord source))) := by
  have hiff : (∃ c, p.Reaches c ∧ c.type = "class") ↔ p.classNodes ≠ [] := by
    simp only [← mem_classNodes]
    exact ⟨fun ⟨c, hc⟩ => List.ne_nil_of_mem hc, List.exists_mem_of_ne_nil _⟩
  rw [hiff]
  by_cases hempty : p.classNodes = []
  · have hreport := report_eq_topLevel source hempty
    simp [hempty, hreport]
  · have hreport := report_eq_classes source hempty
    simp [hempty, hreport, classCensus source hempty]

end Place

end RubyOutline
