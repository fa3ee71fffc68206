import Gpscat.Grouping
import Gpscat.Proofs.AttributionProofs

/-!
# The scan groups the lines exactly

The groups are those of the occurrences, as long as the cost model does not know `.loc`. A file that
is cut in front of a `.loc` directive can be scanned in two parts.
-/

namespace Gpscat

open Cpp MappingExtractor

variable {costModel : AssemblyCostModel}

/-! ## Occurrences -/

theorem locLineno_eq_some {tokens : List Text} {lineno : Text} (h : locLineno tokens = some lineno) :
    tokens.head? = some ".loc".toList := by
  cases tokens with
  | nil => exact absurd h.symm (Option.some_ne_none _)
  | cons token tokens =>
    rw [locLineno] at h
    split_ifs at h with hloc
    rw [List.head?_cons, hloc]

/-- A `.loc` directive has no known first token. -/
theorem knownToken_of_locLine (hloc : costModel.hasInst ".loc".toList = false) {line : Text}
    (h : (locLine line).isSome) : knownToken costModel line = none := by
  rw [locLine, Option.isSome_map] at h
  obtain ⟨lineno, hlineno⟩ := Option.isSome_iff_exists.mp h
  rw [knownToken, locLineno_eq_some hlineno, Option.filter_some, if_neg, Option.map_none]
  rw [hloc]
  exact Bool.false_ne_true

theorem knownToken_eq (hloc : costModel.hasInst ".loc".toList = false) (line : Text) :
    knownToken costModel line = (opcodeOf costModel line).map AssemblyInstruction.mk := by
  cases h : locLine line with
  | some n =>
    rw [knownToken_of_locLine hloc (by rw [h]; rfl), opcodeOf_of_locLine h, Option.map_none]
  | none => rw [knownToken, opcodeOf_of_no_locLine h]

/-- The groups are those of the occurrences. -/
theorem groupedUnder_eq (hloc : costModel.hasInst ".loc".toList = false) (inputFile : List Text)
    (id : InstructionID) :
    groupedUnder costModel inputFile id = opcodesUnder (occurrences costModel inputFile) id := by
  rw [groupedUnder, opcodesUnder, occurrences, List.filter_filterMap, List.map_filterMap]
  refine List.filterMap_congr fun i hi => ?_
  obtain ⟨line, hline⟩ : ∃ line, inputFile[i]? = some line :=
    ⟨_, List.getElem?_eq_getElem (List.mem_range.mp hi)⟩
  rw [hline, Option.bind_some, Option.bind_some, knownToken_eq hloc]
  cases opcodeOf costModel line with
  | none => simp
  | some opcode => by_cases hgov : governingLine inputFile i = id <;> simp [hgov]

/-! ## Two parts -/

/-- Behind a `.loc` directive of the second part, the first part governs nothing. -/
theorem governingLine_append_right (A : List Text) {B : List Text} (hB : StartsWithLoc B) (j : Nat) :
    governingLine (A ++ B) (A.length + (j + 1)) = governingLine B (j + 1) := by
  cases B with
  | nil => exact absurd hB not_false
  | cons line B =>
    obtain ⟨n, hn⟩ := Option.isSome_iff_exists.mp hB
    have hne : ((line :: B).take (j + 1)).filterMap locLine ≠ [] := by
      rw [List.take_succ_cons, List.filterMap_cons_some hn]
      exact List.cons_ne_nil _ _
    rw [governingLine, governingLine, List.take_length_add_append, List.filterMap_append,
      List.getLast?_append_of_ne_nil _ hne]

/-- The groups of a file that is cut in front of a `.loc` directive. -/
theorem groupedUnder_append (hloc : costModel.hasInst ".loc".toList = false) (A : List Text)
    {B : List Text} (hB : StartsWithLoc B) (id : InstructionID) :
    groupedUnder costModel (A ++ B) id =
      groupedUnder costModel A id ++ groupedUnder costModel B id := by
  unfold groupedUnder
  rw [List.length_append, List.range_add, List.filterMap_append, List.filterMap_map]
  congr 1
  · refine List.filterMap_congr fun i hi => ?_
    have hlt := List.mem_range.mp hi
    rw [governingLine_append hlt.le, List.getElem?_append_left hlt]
  · refine List.filterMap_congr fun j _ => ?_
    have hline : (A ++ B)[A.length + j]? = B[j]? := by
      rw [List.getElem?_append_right (Nat.le_add_right _ _), Nat.add_sub_cancel_left]
    rw [Function.comp_apply, hline]
    cases j with
    | succ j => rw [governingLine_append_right A hB]
    | zero =>
      -- The directive itself is in no group.
      cases B with
      | nil => exact absurd hB not_false
      | cons line B =>
        rw [List.getElem?_cons_zero, Option.bind_some, knownToken_of_locLine hloc hB, ite_self,
          ite_self]

/-! ## The map -/

theorem GroupsExactly.findD {inputFile : List Text} {m : IRIDAsmMapType}
    (h : GroupsExactly costModel inputFile m) (id : InstructionID) :
    m.findD id [] = groupedUnder costModel inputFile id :=
  UnorderedMap.findD_of_lookup_eq (h id)

theorem extractIDMapping_groupsExactly (hloc : costModel.hasInst ".loc".toList = false)
    {inputFile : List Text} (hdec : LocsDecimal inputFile) :
    ∃ m cerr, extractIDMapping inputFile costModel = .ok (m, cerr) ∧
      GroupsExactly costModel inputFile m := by
  obtain ⟨m, hm, hgroups⟩ : ∃ m, extractIDMapping inputFile costModel = .ok (m, _) ∧
      Groups m (occurrences costModel inputFile) := extractIDMapping_groups inputFile hdec
  refine ⟨m, _, hm, fun id => ?_⟩
  rw [groupedUnder_eq hloc]
  exact hgroups id

/-- **The scan groups the lines exactly**, and a file that is cut in front of a `.loc` directive can
be scanned in two parts. -/
theorem extractIDMapping_exact (costModel : AssemblyCostModel)
    (hloc : costModel.hasInst ".loc".toList = false) (inputFile : List Text)
    (hdec : LocsDecimal inputFile) :
    ∃ m cerr, extractIDMapping inputFile costModel = .ok (m, cerr) ∧
      GroupsExactly costModel inputFile m ∧
      ∀ A B, inputFile = A ++ B → StartsWithLoc B →
        ∃ mA cerrA mB cerrB, extractIDMapping A costModel = .ok (mA, cerrA) ∧
          extractIDMapping B costModel = .ok (mB, cerrB) ∧
          ∀ id, m.findD id [] = mA.findD id [] ++ mB.findD id [] := by
  obtain ⟨m, cerr, hm, hgroups⟩ := extractIDMapping_groupsExactly hloc hdec
  refine ⟨m, cerr, hm, hgroups, ?_⟩
  rintro A B rfl hB
  have hdecA : LocsDecimal A := fun line hline => hdec line (List.mem_append_left B hline)
  have hdecB : LocsDecimal B := fun line hline => hdec line (List.mem_append_right A hline)
  obtain ⟨mA, cerrA, hmA, hgroupsA⟩ := extractIDMapping_groupsExactly hloc hdecA
  obtain ⟨mB, cerrB, hmB, hgroupsB⟩ := extractIDMapping_groupsExactly hloc hdecB
  refine ⟨mA, cerrA, mB, cerrB, hmA, hmB, fun id => ?_⟩
  rw [hgroups.findD, hgroupsA.findD, hgroupsB.findD, groupedUnder_append hloc A hB]

/-- The file of the example starts its second part at the second `.loc` directive. -/
theorem extractIDMapping_exact_sample :
    ∃ m cerr, extractIDMapping sampleAsm sampleCosts = .ok (m, cerr) ∧
      GroupsExactly sampleCosts sampleAsm m ∧
      ∀ A B, sampleAsm = A ++ B → StartsWithLoc B →
        ∃ mA cerrA mB cerrB, extractIDMapping A sampleCosts = .ok (mA, cerrA) ∧
          extractIDMapping B sampleCosts = .ok (mB, cerrB) ∧
          ∀ id, m.findD id [] = mA.findD id [] ++ mB.findD id [] :=
  extractIDMapping_exact sampleCosts (by decide +kernel) sampleAsm (by decide +kernel)

end Gpscat
