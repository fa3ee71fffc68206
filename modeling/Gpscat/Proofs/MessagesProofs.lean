import Gpscat.Messages
import Gpscat.Proofs.AttributionProofs

/-!
# No cost is lost without a message

The loop over the groups gives each group to the instruction of its line, or reports its line. The
groups have different lines, so neither the map nor the messages depend on the order of the loop.
-/

namespace Gpscat

open Cpp LLVM MappingExtractor

variable {M : Module} {occs : List Occurrence} {idMap : IRIDAsmMapType}
  {es : List ((_ : InstructionID) × List AssemblyInstruction)}

theorem mem_locatedLines {line : InstructionID} :
    line ∈ M.locatedLines ↔ ∃ I, (I, some line) ∈ M.instructions := by
  simp [Module.locatedLines]

theorem lookup_instIDPtrMap_eq_none {line : InstructionID} :
    (instIDPtrMap M).lookup line = none ↔ line ∉ M.locatedLines := by
  rw [mem_locatedLines]
  constructor
  · rintro h ⟨I, hI⟩
    obtain ⟨J, hJ⟩ := instIDPtrMap_complete hI
    rw [h] at hJ
    cases hJ
  · intro h
    cases hline : (instIDPtrMap M).lookup line with
    | none => rfl
    | some I => exact absurd ⟨I, instIDPtrMap_sound hline⟩ h

/-- The lines that have a group are those of the occurrences. -/
theorem Groups.mem_keys_iff (hgroups : Groups idMap occs) (hperm : es.Perm idMap.entries)
    {line : InstructionID} : (∃ e ∈ es, e.1 = line) ↔ ∃ o ∈ occs, o.governing = line := by
  have hkeys : (∃ e ∈ es, e.1 = line) ↔ line ∈ idMap := by
    rw [AList.mem_keys, AList.keys, List.keys, List.mem_map]
    exact exists_congr fun e => and_congr_left fun _ => hperm.mem_iff
  have hunder : opcodesUnder occs line = [] ↔ ¬ ∃ o ∈ occs, o.governing = line := by
    simp [opcodesUnder]
  rw [hkeys, ← AList.lookup_isSome, hgroups line]
  by_cases hempty : opcodesUnder occs line = []
  · rw [if_pos hempty]
    exact iff_of_false Bool.false_ne_true (hunder.mp hempty)
  · rw [if_neg hempty]
    exact iff_of_true rfl (not_not.mp fun h => hempty (hunder.mpr h))

/-! ## The map -/

/-- The map behind the loop, whatever the order of the groups is. -/
theorem lookup_assignInOrder (hgroups : Groups idMap occs) (hperm : es.Perm idMap.entries)
    (cerr : List Diagnostic) {I : InstructionPtr} {line : InstructionID}
    (hline : (instIDPtrMap M).lookup line = some I) :
    (assignInOrder M es cerr).1.lookup I =
      if opcodesUnder occs line = [] then none else some (opcodesUnder occs line) := by
  have hnd : es.NodupKeys := (List.perm_nodupKeys hperm).mpr idMap.nodupKeys
  rw [assignInOrder, foldl_assignAsms_lookup (fun _ _ _ => instIDPtrMap_injective) es hnd _ hline,
    AList.lookup_empty, Option.or_none, List.perm_dlookup line hnd hperm]
  exact hgroups line

theorem sound_assignInOrder (hgroups : Groups idMap occs) (hperm : es.Perm idMap.entries)
    (cerr : List Diagnostic) {I : InstructionPtr} {asms : List AssemblyInstruction}
    (h : (assignInOrder M es cerr).1.lookup I = some asms) :
    asms ≠ [] ∧ ∃ line, (I, some line) ∈ M.instructions ∧ asms = opcodesUnder occs line := by
  by_cases hline : ∃ line, (instIDPtrMap M).lookup line = some I
  · obtain ⟨line, hline⟩ := hline
    rw [lookup_assignInOrder hgroups hperm cerr hline] at h
    split_ifs at h with hempty
    obtain rfl := Option.some.inj h
    exact ⟨hempty, line, instIDPtrMap_sound hline, rfl⟩
  · rw [assignInOrder, foldl_assignAsms_lookup_of_ne es _ fun e _ he => hline ⟨e.1, he⟩, AList.lookup_empty] at h
    cases h

/-! ## The messages -/

/-- The messages behind the loop. -/
theorem mem_cerr_iff (hgroups : Groups idMap occs) (hperm : es.Perm idMap.entries)
    {msg : Diagnostic} :
    msg ∈ (assignInOrder M es (unlocatedMessages occs)).2 ↔
      ∃ o ∈ occs, (o.governing = 0 ∨ o.governing ∉ M.locatedLines) ∧ msg = o.diagnostic := by
  rw [assignInOrder, foldl_assignAsms_cerr, List.mem_append, unlocatedMessages]
  constructor
  · rintro (h | h)
    · obtain ⟨o, ho, rfl⟩ := List.mem_map.mp h
      obtain ⟨ho, hzero⟩ := List.mem_filter.mp ho
      have hzero : o.governing = 0 := by simpa using hzero
      exact ⟨o, ho, .inl hzero, by rw [Occurrence.diagnostic, if_pos hzero]⟩
    · obtain ⟨e, he, rfl⟩ := List.mem_map.mp h
      obtain ⟨he, hlost⟩ := List.mem_filter.mp he
      obtain ⟨o, ho, hline⟩ := (hgroups.mem_keys_iff hperm).mp ⟨e, he, rfl⟩
      rw [← hline, Bool.and_eq_true, Option.isNone_iff_eq_none, lookup_instIDPtrMap_eq_none,
        bne_iff_ne] at hlost
      exact ⟨o, ho, .inr hlost.1, by rw [Occurrence.diagnostic, if_neg hlost.2, hline]⟩
  · rintro ⟨o, ho, hlost, rfl⟩
    by_cases hzero : o.governing = 0
    · refine .inl (List.mem_map.mpr ⟨o, List.mem_filter.mpr ⟨ho, by simpa using hzero⟩, ?_⟩)
      rw [Occurrence.diagnostic, if_pos hzero]
    · obtain ⟨e, he, hline⟩ := (hgroups.mem_keys_iff hperm).mpr ⟨o, ho, rfl⟩
      refine .inr (List.mem_map.mpr ⟨e, List.mem_filter.mpr ⟨he, ?_⟩, ?_⟩)
      · rw [hline, Bool.and_eq_true, Option.isNone_iff_eq_none, lookup_instIDPtrMap_eq_none,
          bne_iff_ne]
        exact ⟨hlost.resolve_left hzero, hzero⟩
      · rw [Occurrence.diagnostic, if_neg hzero, hline]

theorem Diagnostic.render_noCorrespondingInst (lineNum : Nat) (opcodeName : Text) :
    (Diagnostic.noCorrespondingInst lineNum opcodeName).render =
      "No corresponding LLVM IR instruction for Assembly instruction: ".toList ++
        Nat.toDigits 10 lineNum ++ ['\t'] ++ opcodeName := by
  unfold Diagnostic.render
  rfl

theorem Diagnostic.render_cannotFindID (id : InstructionID) :
    (Diagnostic.cannotFindID id).render =
      "Cannot find corresponding instruction ID : ".toList ++ Nat.toDigits 10 id.toNat := by
  unfold Diagnostic.render
  rfl

/-- The number of a line is what stands before the tab. -/
theorem span_lineNum (lineNum : Nat) (opcodeName : Text) :
    (Nat.toDigits 10 lineNum ++ ('\t' :: opcodeName)).span Char.isDigit =
      (Nat.toDigits 10 lineNum, '\t' :: opcodeName) := by
  have hdigits : ∀ c ∈ Nat.toDigits 10 lineNum, c.isDigit = true := fun c hc => toDigits_isDigit hc
  rw [List.span_eq_takeWhile_dropWhile, List.takeWhile_append_of_pos hdigits,
    List.dropWhile_append_of_pos hdigits]
  simp

/-- Different messages have different texts. -/
theorem Diagnostic.render_injective : Function.Injective Diagnostic.render := by
  intro msg msg' h
  cases msg with
  | noCorrespondingInst n opcode =>
    cases msg' with
    | noCorrespondingInst n' opcode' =>
      rw [render_noCorrespondingInst, render_noCorrespondingInst, List.append_assoc,
        List.append_assoc, List.append_assoc, List.append_assoc, List.append_cancel_left_eq] at h
      have hspan := congrArg (List.span Char.isDigit) h
      rw [List.singleton_append, List.singleton_append, span_lineNum, span_lineNum, Prod.mk.injEq,
        List.cons.injEq] at hspan
      obtain ⟨hnum, -, rfl⟩ := hspan
      rw [toDigits_injective hnum]
    | cannotFindID id =>
      rw [render_noCorrespondingInst, render_cannotFindID] at h
      simp at h
  | cannotFindID id =>
    cases msg' with
    | noCorrespondingInst n opcode =>
      rw [render_noCorrespondingInst, render_cannotFindID] at h
      simp at h
    | cannotFindID id' =>
      rw [render_cannotFindID, render_cannotFindID, List.append_cancel_left_eq] at h
      rw [BitVec.eq_of_toNat_eq (toDigits_injective h)]

theorem nodup_lineNum_occurrences (costModel : AssemblyCostModel) (inputFile : List Text) :
    ((occurrences costModel inputFile).map Occurrence.lineNum).Nodup := by
  rw [occurrences, List.map_filterMap]
  refine List.Nodup.filterMap ?_ List.nodup_range
  intro i j n hi hj
  simp only [Option.map_map, Option.mem_def, Option.map_eq_some_iff] at hi hj
  obtain ⟨_, -, rfl⟩ := hi
  obtain ⟨_, -, hj⟩ := hj
  exact (Nat.succ.inj hj).symm

theorem nodup_cerr (hperm : es.Perm idMap.entries) (hnd : (occs.map Occurrence.lineNum).Nodup) :
    (assignInOrder M es (unlocatedMessages occs)).2.Nodup := by
  rw [assignInOrder, foldl_assignAsms_cerr, unlocatedMessages]
  refine List.Nodup.append ?_ ?_ ?_
  · refine List.Nodup.map_on ?_ (hnd.of_map.filter _)
    intro o ho o' ho' heq
    exact List.inj_on_of_nodup_map hnd (List.mem_of_mem_filter ho) (List.mem_of_mem_filter ho')
      (Diagnostic.noCorrespondingInst.inj heq).1
  · have hkeys : (es.map Sigma.fst).Nodup := (List.perm_nodupKeys hperm).mpr idMap.nodupKeys
    refine List.Nodup.map_on ?_ (hkeys.of_map.filter _)
    intro e he e' he' heq
    exact List.inj_on_of_nodup_map hkeys (List.mem_of_mem_filter he) (List.mem_of_mem_filter he')
      (Diagnostic.cannotFindID.inj heq)
  · intro msg h h'
    obtain ⟨o, -, rfl⟩ := List.mem_map.mp h
    obtain ⟨e, -, he⟩ := List.mem_map.mp h'
    cases he

/-! ## Both stages -/

theorem accounted_assignInOrder (hgroups : Groups idMap occs) (hperm : es.Perm idMap.entries)
    (hnd : (occs.map Occurrence.lineNum).Nodup) :
    Accounted M occs (assignInOrder M es (unlocatedMessages occs)).1
      (assignInOrder M es (unlocatedMessages occs)).2 where
  attributed o _ hline := by
    obtain ⟨I, hI⟩ := mem_locatedLines.mp hline
    obtain ⟨J, hJ⟩ := instIDPtrMap_complete hI
    exact ⟨J, instIDPtrMap_sound hJ, UnorderedMap.findD_of_lookup_eq
      (lookup_assignInOrder hgroups hperm (unlocatedMessages occs) hJ)⟩
  reported o ho hlost := (mem_cerr_iff hgroups hperm).mpr ⟨o, ho, .inr hlost, rfl⟩
  sound _ _ h := sound_assignInOrder hgroups hperm (unlocatedMessages occs) h
  needed _ hmsg := (mem_cerr_iff hgroups hperm).mp hmsg
  nodup := (nodup_cerr hperm hnd).map Diagnostic.render_injective

/-- **No cost is lost without a message**, for any module and whatever the order is in which the
groups are traversed. The map is the same in every order. -/
theorem extractMapping_accounted (costModel : AssemblyCostModel) (inputFile : List Text)
    (hdec : LocsDecimal inputFile) (M : Module) :
    ∃ idMap cerr m cerr', extractIDMapping inputFile costModel = .ok (idMap, cerr) ∧
      extractMapping inputFile costModel M = .ok (m, cerr') ∧
      ∀ es, List.Perm es idMap.entries →
        Accounted M (occurrences costModel inputFile)
          (assignInOrder M es cerr).1
          (assignInOrder M es cerr).2 ∧
        (∀ I, (assignInOrder M es cerr).1.lookup I = m.lookup I) ∧
        (assignInOrder M es cerr).2.Perm cerr' := by
  obtain ⟨idMap, hid, hgroups⟩ := @extractIDMapping_groups costModel inputFile hdec
  have hok : extractMapping inputFile costModel M =
      .ok (assignInOrder M idMap.entries (unlocatedMessages (occurrences costModel inputFile))) := by
    rw [extractMapping, hid]
    rfl
  have hnd := nodup_lineNum_occurrences costModel inputFile
  refine ⟨idMap, _, _, _, hid, hok, fun es hperm => ⟨?_, fun I => ?_, ?_⟩⟩
  · exact accounted_assignInOrder hgroups hperm hnd
  · exact (foldl_assignAsms_perm idMap.nodupKeys hperm.symm _ I).symm
  · refine (List.perm_ext_iff_of_nodup (nodup_cerr hperm hnd)
      (nodup_cerr (List.Perm.refl _) hnd)).mpr fun msg => ?_
    rw [mem_cerr_iff hgroups hperm, mem_cerr_iff hgroups (List.Perm.refl _)]

theorem extractMapping_accounted_sample :
    ∃ idMap cerr m cerr', extractIDMapping sampleAsm sampleCosts = .ok (idMap, cerr) ∧
      extractMapping sampleAsm sampleCosts sampleModule = .ok (m, cerr') ∧
      ∀ es, List.Perm es idMap.entries →
        Accounted sampleModule (occurrences sampleCosts sampleAsm)
          (assignInOrder sampleModule es cerr).1
          (assignInOrder sampleModule es cerr).2 ∧
        (∀ I, (assignInOrder sampleModule es cerr).1.lookup I =
          m.lookup I) ∧
        (assignInOrder sampleModule es cerr).2.Perm cerr' :=
  extractMapping_accounted sampleCosts sampleAsm (by decide +kernel) sampleModule

end Gpscat
