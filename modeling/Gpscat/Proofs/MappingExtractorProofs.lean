import Gpscat.Attribution
import Gpscat.LLVM.Proofs.IRProofs
import Gpscat.Lib.Proofs.CppStringProofs

/-!
# The mapping extractor computes the attribution

The scan groups the occurrences of the file by the line that governs them, and the second stage
moves each group to the instruction that carries the line.
-/

namespace Gpscat

open Cpp LLVM MappingExtractor

variable {costModel : AssemblyCostModel}

/-! ## The closed form, line by line -/

theorem governingLine_append {xs ys : List Text} {i : Nat} (h : i ≤ xs.length) :
    governingLine (xs ++ ys) i = governingLine xs i := by
  rw [governingLine, List.take_append_of_le_length h, governingLine]

theorem governingLine_snoc (xs : List Text) (line : Text) :
    governingLine (xs ++ [line]) (xs.length + 1) =
      (locLine line).getD (governingLine xs xs.length) := by
  have htake : (xs ++ [line]).take (xs.length + 1) = xs ++ [line] :=
    List.take_of_length_le (by simp)
  rw [governingLine, htake, List.filterMap_append]
  cases hline : locLine line with
  | none => simp [governingLine, hline]
  | some n => simp [hline]

/-- The occurrence that line `line` adds to the lines `xs` before it. -/
def lineOccurrence (costModel : AssemblyCostModel) (xs : List Text) (line : Text) :
    Option Occurrence :=
  (opcodeOf costModel line).map fun opcode =>
    ⟨xs.length + 1, governingLine xs xs.length, opcode⟩

theorem occurrences_snoc (xs : List Text) (line : Text) :
    occurrences costModel (xs ++ [line]) =
      occurrences costModel xs ++ (lineOccurrence costModel xs line).toList := by
  have hlast : governingLine (xs ++ [line]) xs.length = governingLine xs xs.length :=
    governingLine_append le_rfl
  unfold occurrences
  rw [List.length_append, List.length_singleton, List.range_succ, List.filterMap_append]
  congr 1
  · refine List.filterMap_congr fun i hi => ?_
    have hi' : i < xs.length := List.mem_range.mp hi
    rw [List.getElem?_append_left hi', governingLine_append hi'.le]
  · cases hop : opcodeOf costModel line <;> simp [lineOccurrence, hop, hlast]

/-- An opcode of an occurrence is known to the cost model. -/
theorem hasInst_of_mem_occurrences {xs : List Text} {o : Occurrence}
    (h : o ∈ occurrences costModel xs) : costModel.hasInst o.opcode := by
  obtain ⟨i, -, hi⟩ := List.mem_filterMap.mp h
  obtain ⟨opcode, hop, rfl⟩ := Option.map_eq_some_iff.mp hi
  obtain ⟨line, -, hline⟩ := Option.bind_eq_some_iff.mp hop
  unfold opcodeOf at hline
  split at hline
  · exact absurd hline (Option.some_ne_none _).symm
  · exact (Option.filter_eq_some_iff.mp hline).2

/-! ## The scan -/

/-- `m` holds, under each line, the opcodes that the line governs, and no empty list. -/
def Groups (m : IRIDAsmMapType) (occs : List Occurrence) : Prop :=
  ∀ line, m.lookup line =
    if opcodesUnder occs line = [] then none else some (opcodesUnder occs line)

theorem Groups.findD {m : IRIDAsmMapType} {occs : List Occurrence} (h : Groups m occs)
    (line : InstructionID) : m.findD line [] = opcodesUnder occs line :=
  UnorderedMap.findD_of_lookup_eq (h line)

theorem opcodesUnder_snoc (occs : List Occurrence) (o : Occurrence) (line : InstructionID) :
    opcodesUnder (occs ++ [o]) line =
      opcodesUnder occs line ++ if o.governing = line then [⟨o.opcode⟩] else [] := by
  by_cases h : o.governing = line <;> simp [opcodesUnder, h]

theorem Groups.snoc {m : IRIDAsmMapType} {occs : List Occurrence} (h : Groups m occs)
    (o : Occurrence) :
    Groups (m.modify o.governing [] (· ++ [⟨o.opcode⟩])) (occs ++ [o]) := by
  intro line
  rw [opcodesUnder_snoc]
  by_cases hline : line = o.governing
  · subst hline
    rw [UnorderedMap.lookup_modify_self, h.findD, if_pos rfl, if_neg (by simp)]
  · rw [UnorderedMap.lookup_modify_of_ne m hline, if_neg (Ne.symm hline), List.append_nil, h line]

/-- The messages of the scan: one for every occurrence under line 0. -/
def unlocatedMessages (occs : List Occurrence) : List Diagnostic :=
  (occs.filter (·.governing = 0)).map fun o => .noCorrespondingInst o.lineNum o.opcode

theorem unlocatedMessages_snoc (occs : List Occurrence) (o : Occurrence) :
    unlocatedMessages (occs ++ [o]) = unlocatedMessages occs ++
      if o.governing = 0 then [.noCorrespondingInst o.lineNum o.opcode] else [] := by
  unfold unlocatedMessages
  rw [List.filter_append, List.map_append]
  congr 1
  by_cases h : o.governing = 0
  · rw [if_pos h, List.filter_cons_of_pos (by simpa using h)]; rfl
  · rw [if_neg h, List.filter_cons_of_neg (by simpa using h)]; rfl

/-- The variables of the scan after the lines `xs`. -/
structure Scanned (costModel : AssemblyCostModel) (xs : List Text) (st : ScanState) : Prop where
  groups : Groups st.IRIDAsmMap (occurrences costModel xs)
  current : st.currentLocLineno = governingLine xs xs.length
  lineNum : st.lineNum = xs.length
  cerr : st.cerr = unlocatedMessages (occurrences costModel xs)

theorem scanned_nil : Scanned costModel [] {} where
  groups := fun _ => rfl
  current := rfl
  lineNum := rfl
  cerr := rfl

/-- `.loc` lines and lines without a known opcode leave everything but the register and the line
count alone. -/
theorem Scanned.skip {xs : List Text} {st : ScanState} (h : Scanned costModel xs st) {line : Text}
    (hop : opcodeOf costModel line = none) :
    Scanned costModel (xs ++ [line])
      { st with
        currentLocLineno := (locLine line).getD st.currentLocLineno
        lineNum := st.lineNum + 1 } := by
  have hocc : occurrences costModel (xs ++ [line]) = occurrences costModel xs := by
    rw [occurrences_snoc]; simp [lineOccurrence, hop]
  refine ⟨by rw [hocc]; exact h.groups, ?_, by simp [h.lineNum], by rw [hocc]; exact h.cerr⟩
  rw [List.length_append, List.length_singleton, governingLine_snoc, h.current]

theorem Scanned.push {xs : List Text} {st : ScanState} (h : Scanned costModel xs st) {line : Text}
    {opcode : Text} (hloc : locLine line = none) (hop : opcodeOf costModel line = some opcode) :
    Scanned costModel (xs ++ [line])
      { IRIDAsmMap := st.IRIDAsmMap.modify st.currentLocLineno [] (· ++ [⟨opcode⟩])
        currentLocLineno := st.currentLocLineno
        lineNum := st.lineNum + 1
        cerr := if st.currentLocLineno = 0
          then st.cerr ++ [.noCorrespondingInst (st.lineNum + 1) opcode] else st.cerr } := by
  have hocc : occurrences costModel (xs ++ [line]) = occurrences costModel xs ++
      [⟨xs.length + 1, governingLine xs xs.length, opcode⟩] := by
    rw [occurrences_snoc]; simp [lineOccurrence, hop]
  refine ⟨?_, ?_, by simp [h.lineNum], ?_⟩
  · rw [hocc, h.current]
    exact h.groups.snoc ⟨xs.length + 1, governingLine xs xs.length, opcode⟩
  · rw [List.length_append, List.length_singleton, governingLine_snoc, hloc, Option.getD_none,
      h.current]
  · rw [hocc, unlocatedMessages_snoc, ← h.cerr, ← h.current, ← h.lineNum]
    by_cases hzero : st.currentLocLineno = 0
    · simp only [if_pos hzero]
    · simp only [if_neg hzero, List.append_nil]

/-- A `.loc` line is no opcode line. -/
theorem opcodeOf_of_locLine {line : Text} {n : InstructionID} (h : locLine line = some n) :
    opcodeOf costModel line = none := by
  rw [opcodeOf, h]

theorem opcodeOf_of_no_locLine {line : Text} (h : locLine line = none) :
    opcodeOf costModel line = (words line).head?.filter costModel.hasInst := by
  rw [opcodeOf, h]

theorem scanLine_scanned {xs : List Text}
    {st : ScanState} (h : Scanned costModel xs st) {line : Text} (hdec : LocsDecimal [line]) :
    ∃ st', scanLine costModel st line = .ok st' ∧ Scanned costModel (xs ++ [line]) st' := by
  cases htok : words line with
  | nil =>
    have hnone : locLine line = none := by simp [locLine, htok, locLineno]
    have hop : opcodeOf costModel line = none := by
      rw [opcodeOf_of_no_locLine hnone, htok, List.head?_nil, Option.filter_none]
    have hstep := h.skip hop
    rw [hnone, Option.getD_none] at hstep
    exact ⟨_, by simp [scanLine, htok], hstep⟩
  | cons token tokens =>
    cases hlineno : locLineno (token :: tokens) with
    | some lineno =>
      have hline : locLineno (words line) = some lineno := by rw [htok]; exact hlineno
      obtain ⟨hne, hdig, hlt⟩ := hdec line (List.mem_singleton_self _) lineno hline
      have hstoul := stoul_of_digits hne (List.all_eq_true.mp hdig) (by omega)
      have hval : locLine line = some (BitVec.ofNat 32 (Nat.ofDigitChars 10 lineno 0)) := by
        rw [locLine, hline, Option.map_some]
      have hstep := h.skip (opcodeOf_of_locLine hval)
      rw [hval, Option.getD_some] at hstep
      refine ⟨_, ?_, hstep⟩
      simp only [scanLine, htok, hlineno, hstoul]
      rfl
    | none =>
      have hnone : locLine line = none := by simp [locLine, htok, hlineno]
      by_cases hinst : costModel.hasInst token = true
      · have hop : opcodeOf costModel line = some token := by
          rw [opcodeOf_of_no_locLine hnone, htok, List.head?_cons, Option.filter_some, if_pos hinst]
        refine ⟨_, ?_, h.push hnone hop⟩
        simp only [scanLine, htok, hlineno, if_pos hinst]
      · have hop : opcodeOf costModel line = none := by
          rw [opcodeOf_of_no_locLine hnone, htok, List.head?_cons, Option.filter_some, if_neg hinst]
        have hstep := h.skip hop
        rw [hnone, Option.getD_none] at hstep
        refine ⟨_, ?_, hstep⟩
        simp only [scanLine, htok, hlineno, if_neg hinst]

/-- The scan of a whole file, by induction on its length: it does not throw, and its map groups the
occurrences. -/
theorem scan_scanned (inputFile : List Text) (hdec : LocsDecimal inputFile) :
    ∃ st, scan costModel inputFile {} = .ok st ∧ Scanned costModel inputFile st := by
  induction inputFile using List.reverseRecOn with
  | nil => exact ⟨{}, rfl, scanned_nil⟩
  | append_singleton xs line ih =>
    obtain ⟨st, hst, hscan⟩ := ih fun l hl => hdec l (List.mem_append_left _ hl)
    have hdecLine : LocsDecimal [line] := fun l hl => hdec l (List.mem_append_right _ hl)
    obtain ⟨st', hst', hscan'⟩ := scanLine_scanned hscan hdecLine
    refine ⟨st', ?_, hscan'⟩
    unfold scan at hst ⊢
    rw [List.foldlM_append, hst]
    change (scanLine costModel st line >>= pure) = _
    rw [hst']
    rfl

/-- The first `extractMapping` groups the occurrences of the file, and reports those under line
0. -/
theorem extractIDMapping_groups (inputFile : List Text) (hdec : LocsDecimal inputFile) :
    ∃ m, extractIDMapping inputFile costModel =
        .ok (m, unlocatedMessages (occurrences costModel inputFile)) ∧
      Groups m (occurrences costModel inputFile) := by
  obtain ⟨st, hst, hscan⟩ := scan_scanned inputFile hdec
  refine ⟨st.IRIDAsmMap, ?_, hscan.groups⟩
  rw [extractIDMapping, hst, ← hscan.cerr]
  rfl

/-! ## From lines to instructions -/

theorem instIDPtrMap_sound {M : Module} {line : InstructionID} {I : InstructionPtr}
    (h : (instIDPtrMap M).lookup line = some I) : (I, some line) ∈ M.instructions := by
  unfold instIDPtrMap at h
  generalize M.instructions = l at h ⊢
  induction l using List.reverseRecOn with
  | nil => simp at h
  | append_singleton l x ih =>
    rw [List.foldl_append, List.foldl_cons, List.foldl_nil] at h
    obtain ⟨J, loc⟩ := x
    cases loc with
    | none => exact List.mem_append_left _ (ih h)
    | some line' =>
      by_cases heq : line = line'
      · subst heq
        rw [AList.lookup_insert] at h
        obtain rfl := Option.some.inj h
        exact List.mem_append_right _ (List.mem_singleton_self _)
      · rw [AList.lookup_insert_ne heq] at h
        exact List.mem_append_left _ (ih h)

theorem instIDPtrMap_complete {M : Module} {line : InstructionID} {I : InstructionPtr}
    (h : (I, some line) ∈ M.instructions) : ∃ J, (instIDPtrMap M).lookup line = some J := by
  unfold instIDPtrMap
  generalize M.instructions = l at h ⊢
  induction l using List.reverseRecOn with
  | nil => exact absurd h List.not_mem_nil
  | append_singleton l x ih =>
    rw [List.foldl_append, List.foldl_cons, List.foldl_nil]
    obtain ⟨K, loc⟩ := x
    cases loc with
    | none =>
      refine ih ((List.mem_append.mp h).resolve_right fun hx => ?_)
      exact absurd (Prod.mk.inj (List.mem_singleton.mp hx)).2 (Option.some_ne_none line)
    | some line' =>
      by_cases heq : line = line'
      · subst heq; exact ⟨K, AList.lookup_insert _⟩
      · obtain ⟨J, hJ⟩ := ih ((List.mem_append.mp h).resolve_right fun hx =>
          heq (Option.some.inj (Prod.mk.inj (List.mem_singleton.mp hx)).2))
        exact ⟨J, by rw [AList.lookup_insert_ne heq]; exact hJ⟩

/-- With distinct lines, the map takes a line to the instruction that carries it. -/
theorem instIDPtrMap_lookup {M : Module} (hM : DistinctLines M) {line : InstructionID}
    {I : InstructionPtr} (h : (I, some line) ∈ M.instructions) :
    (instIDPtrMap M).lookup line = some I := by
  obtain ⟨J, hJ⟩ := instIDPtrMap_complete h
  rw [hJ, M.ptr_unique_of_nodup hM.nodup h (instIDPtrMap_sound hJ)]

/-- Two lines never share an instruction. -/
theorem instIDPtrMap_injective {M : Module} {line line' : InstructionID} {I : InstructionPtr}
    (h : (instIDPtrMap M).lookup line = some I) (h' : (instIDPtrMap M).lookup line' = some I) :
    line = line' :=
  Option.some.inj (M.instructions_loc_unique (instIDPtrMap_sound h) (instIDPtrMap_sound h'))

section Assign

variable {ids : InstIDPtrMapType}

theorem foldl_assignAsms_lookup_of_ne {I : InstructionPtr}
    (es : List ((_ : InstructionID) × List AssemblyInstruction))
    (acc : IRAsmMapType × List Diagnostic) (hno : ∀ e ∈ es, ids.lookup e.1 ≠ some I) :
    (es.foldl (assignAsms ids) acc).1.lookup I = acc.1.lookup I := by
  induction es generalizing acc with
  | nil => rfl
  | cons e es ih =>
    rw [List.foldl_cons, ih _ fun e' he' => hno e' (List.mem_cons_of_mem _ he')]
    unfold assignAsms
    cases hlook : ids.lookup e.1 with
    | none => simp only; split <;> rfl
    | some J =>
      have hne : I ≠ J := fun hIJ => hno e List.mem_cons_self (by rw [hlook, hIJ])
      exact AList.lookup_insert_ne hne

/-- The loop over the entries of `IRIDAsmMap`, whatever their order: an instruction gets the list
under its line. -/
theorem foldl_assignAsms_lookup
    (hinj : ∀ a b I, ids.lookup a = some I → ids.lookup b = some I → a = b)
    (es : List ((_ : InstructionID) × List AssemblyInstruction)) (hnd : es.NodupKeys)
    (acc : IRAsmMapType × List Diagnostic) {line : InstructionID} {I : InstructionPtr}
    (hline : ids.lookup line = some I) :
    (es.foldl (assignAsms ids) acc).1.lookup I = (es.dlookup line).or (acc.1.lookup I) := by
  induction es generalizing acc with
  | nil => rfl
  | cons e es ih =>
    obtain ⟨hhead, htail⟩ := List.nodupKeys_cons.mp hnd
    rw [List.foldl_cons]
    obtain ⟨id, asms⟩ := e
    by_cases hid : id = line
    · subst hid
      have hrest : ∀ e ∈ es, ids.lookup e.1 ≠ some I := by
        intro e he hlook
        have hkey : e.1 = id := hinj _ _ _ hlook hline
        exact hhead (List.mem_map.mpr ⟨e, he, hkey⟩)
      rw [foldl_assignAsms_lookup_of_ne es _ hrest, List.dlookup_cons_eq, Option.some_or]
      simp only [assignAsms, hline]
      exact AList.lookup_insert _
    · rw [ih htail, List.dlookup_cons_ne _ _ (Ne.symm hid)]
      congr 1
      unfold assignAsms
      cases hlook : ids.lookup id with
      | none => simp only; split <;> rfl
      | some J =>
        have hne : I ≠ J := fun hIJ => hid (hinj _ _ I (by rw [hlook, hIJ]) hline)
        exact AList.lookup_insert_ne hne

/-- The messages of the loop: one for every line other than 0 that no instruction carries. -/
theorem foldl_assignAsms_cerr (es : List ((_ : InstructionID) × List AssemblyInstruction))
    (acc : IRAsmMapType × List Diagnostic) :
    (es.foldl (assignAsms ids) acc).2 = acc.2 ++
      (es.filter fun e => (ids.lookup e.1).isNone && e.1 != 0).map fun e => .cannotFindID e.1 := by
  induction es generalizing acc with
  | nil => simp
  | cons e es ih =>
    rw [List.foldl_cons, ih]
    unfold assignAsms
    cases hlook : ids.lookup e.1 with
    | none =>
      by_cases hzero : e.1 = 0
      · simp [hlook, hzero]
      · simp only [ne_eq, hzero, not_false_eq_true, if_true]
        rw [List.filter_cons_of_pos (by simpa [hlook] using hzero), List.map_cons,
          List.append_assoc, List.singleton_append]
    | some J => simp [hlook]

end Assign

/-- The order in which the unordered map is traversed does not matter. -/
theorem foldl_assignAsms_perm {M : Module}
    {es es' : List ((_ : InstructionID) × List AssemblyInstruction)} (hnd : es.NodupKeys)
    (hperm : es.Perm es') (acc : IRAsmMapType × List Diagnostic) (I : InstructionPtr) :
    (es.foldl (assignAsms (instIDPtrMap M)) acc).1.lookup I =
      (es'.foldl (assignAsms (instIDPtrMap M)) acc).1.lookup I := by
  have hnd' : es'.NodupKeys := (List.perm_nodupKeys hperm).mp hnd
  have hinj : ∀ a b J, (instIDPtrMap M).lookup a = some J → (instIDPtrMap M).lookup b = some J →
      a = b := fun _ _ _ => instIDPtrMap_injective
  by_cases hI : ∃ line, (instIDPtrMap M).lookup line = some I
  · obtain ⟨line, hline⟩ := hI
    rw [foldl_assignAsms_lookup hinj es hnd acc hline,
      foldl_assignAsms_lookup hinj es' hnd' acc hline, List.perm_dlookup line hnd hperm]
  · rw [foldl_assignAsms_lookup_of_ne es acc fun e _ h => hI ⟨_, h⟩,
      foldl_assignAsms_lookup_of_ne es' acc fun e _ h => hI ⟨_, h⟩]

/-- What the second `extractMapping` returns: every located instruction has the opcodes that its
line governs, and no other instruction has any. -/
structure Extracted (M : Module) (occs : List Occurrence) (m : IRAsmMapType) : Prop where
  located : ∀ I line, (I, some line) ∈ M.instructions → m.findD I [] = opcodesUnder occs line
  unlocated : ∀ I, (I, none) ∈ M.instructions → m.findD I [] = []

theorem extractMapping_extracted (inputFile : List Text) (hdec : LocsDecimal inputFile)
    {M : Module} (hM : DistinctLines M) :
    ∃ m cerr, extractMapping inputFile costModel M = .ok (m, cerr) ∧
      Extracted M (occurrences costModel inputFile) m := by
  obtain ⟨idMap, hid, hgroups⟩ := extractIDMapping_groups inputFile hdec
  have hok : extractMapping inputFile costModel M = .ok (idMap.entries.foldl
      (assignAsms (instIDPtrMap M)) (∅, unlocatedMessages (occurrences costModel inputFile))) := by
    rw [extractMapping, hid]; rfl
  refine ⟨_, _, hok, ?_, ?_⟩
  · intro I line hI
    have hlookup := foldl_assignAsms_lookup (fun _ _ _ => instIDPtrMap_injective) idMap.entries
      idMap.nodupKeys (∅, unlocatedMessages (occurrences costModel inputFile))
      (instIDPtrMap_lookup hM hI)
    rw [AList.lookup_empty, Option.or_none] at hlookup
    rw [← hgroups.findD line, UnorderedMap.findD, hlookup]
    rfl
  · intro I hI
    have hno : ∀ e ∈ idMap.entries, (instIDPtrMap M).lookup e.1 ≠ some I := by
      intro e _ hlook
      exact Option.some_ne_none _ (M.instructions_loc_unique (instIDPtrMap_sound hlook) hI)
    have hlookup := foldl_assignAsms_lookup_of_ne idMap.entries
      (∅, unlocatedMessages (occurrences costModel inputFile)) hno
    rw [UnorderedMap.findD, hlookup]
    rfl

end Gpscat
