import Gpscat.Sections
import Gpscat.Proofs.AttributionProofs

/-!
# Which costs cross functions

The opcodes charged under a line, section by section. A section adds its own opcodes under the line,
and the opcodes of its head when it is entered while the line is current. So a function keeps to
its own section exactly when no head is entered under one of its lines.
-/

namespace Gpscat

open Cpp LLVM MappingExtractor

variable {costModel : AssemblyCostModel}

/-! ## Charges of a text -/

/-- The opcodes that a text charges to `line` when `current` is the line at its start. -/
def charged (costModel : AssemblyCostModel) (line : InstructionID) :
    InstructionID → List Text → List AssemblyInstruction
  | _, [] => []
  | current, l :: ls =>
    (if current = line then ((opcodeOf costModel l).map AssemblyInstruction.mk).toList else []) ++
      charged costModel line ((locLine l).getD current) ls

/-- The line that is current after a text that starts under `current`. -/
def lineFrom (current : InstructionID) (text : List Text) : InstructionID :=
  ((text.filterMap locLine).getLast?).getD current

theorem lineFrom_cons (current : InstructionID) (l : Text) (ls : List Text) :
    lineFrom current (l :: ls) = lineFrom ((locLine l).getD current) ls := by
  unfold lineFrom
  cases hl : locLine l with
  | none => rw [List.filterMap_cons_none hl, Option.getD_none]
  | some n =>
    rw [List.filterMap_cons_some hl, Option.getD_some]
    cases hls : (ls.filterMap locLine).getLast? with
    | none => rw [List.getLast?_eq_none_iff.mp hls]; rfl
    | some k => rw [List.getLast?_cons, hls]; rfl

theorem lineAfter_eq (text : List Text) : lineAfter text = lineFrom 0 text := by
  rw [lineAfter, governingLine, List.take_length, lineFrom]

/-- The current line after a text is the one before it, or one that the text names. -/
theorem lineFrom_cases (current : InstructionID) (text : List Text) :
    lineFrom current text = current ∨ lineFrom current text ∈ text.filterMap locLine := by
  unfold lineFrom
  cases h : (text.filterMap locLine).getLast? with
  | none => exact Or.inl rfl
  | some n => exact Or.inr (List.mem_of_getLast? h)

theorem charged_append (line current : InstructionID) (xs ys : List Text) :
    charged costModel line current (xs ++ ys) =
      charged costModel line current xs ++ charged costModel line (lineFrom current xs) ys := by
  induction xs generalizing current with
  | nil => rfl
  | cons l ls ih =>
    rw [List.cons_append, charged, charged, ih, lineFrom_cons, List.append_assoc]

/-- The closed form from the left and the closed form by occurrences agree. -/
theorem opcodesUnder_occurrences (text : List Text) (line : InstructionID) :
    opcodesUnder (occurrences costModel text) line = charged costModel line 0 text := by
  induction text using List.reverseRecOn with
  | nil => rfl
  | append_singleton xs l ih =>
    have hlast : lineFrom 0 xs = governingLine xs xs.length := (lineAfter_eq xs).symm
    rw [occurrences_snoc, charged_append, ← ih, hlast, charged, charged, List.append_nil]
    cases hop : opcodeOf costModel l with
    | none => simp [lineOccurrence, hop]
    | some opcode =>
      rw [lineOccurrence, hop, Option.map_some, Option.toList_some, opcodesUnder_snoc]
      rfl

/-- Away from the line that is charged, it does not matter which line is current. -/
theorem charged_of_ne {line current : InstructionID} (hcur : current ≠ line) (hline : line ≠ 0)
    (text : List Text) : charged costModel line current text = charged costModel line 0 text := by
  induction text generalizing current with
  | nil => rfl
  | cons l ls ih =>
    rw [charged, charged, if_neg hcur, if_neg hline.symm]
    cases locLine l with
    | none => rw [Option.getD_none, Option.getD_none, ih hcur]
    | some n => rfl

/-- Entered under the line itself, a text also charges its head to the line. -/
theorem charged_self {line : InstructionID} (hline : line ≠ 0) (text : List Text) :
    charged costModel line line text =
      headOpcodes costModel text ++ charged costModel line 0 text := by
  induction text with
  | nil => rfl
  | cons l ls ih =>
    rw [charged, charged, if_pos rfl, if_neg hline.symm, List.nil_append, headOpcodes]
    cases hl : locLine l with
    | none =>
      rw [List.takeWhile_cons_of_pos (by rw [hl]; rfl), Option.getD_none, Option.getD_none, ih,
        headOpcodes, ← List.append_assoc]
      congr 1
      cases hop : opcodeOf costModel l with
      | none => rw [List.filterMap_cons_none hop]; rfl
      | some opcode => rw [List.filterMap_cons_some hop]; rfl
    | some n =>
      rw [List.takeWhile_cons_of_neg (by rw [hl]; exact Bool.false_ne_true),
        opcodeOf_of_locLine hl]
      rfl

/-- What a text charges to a line, by the line that is current at its start. -/
theorem charged_eq {line : InstructionID} (hline : line ≠ 0) (current : InstructionID)
    (text : List Text) :
    charged costModel line current text =
      (if current = line then headOpcodes costModel text else []) ++
        charged costModel line 0 text := by
  by_cases hcur : current = line
  · rw [if_pos hcur, hcur, charged_self hline]
  · rw [if_neg hcur, List.nil_append, charged_of_ne hcur hline]

/-- A text that does not name the line charges nothing to it from line 0. -/
theorem charged_eq_nil {line : InstructionID} (hline : line ≠ 0) {text : List Text}
    (h : line ∉ text.filterMap locLine) : charged costModel line 0 text = [] := by
  induction text with
  | nil => rfl
  | cons l ls ih =>
    rw [charged, if_neg hline.symm, List.nil_append]
    cases hl : locLine l with
    | none =>
      rw [List.filterMap_cons_none hl] at h
      rw [Option.getD_none, ih h]
    | some n =>
      rw [List.filterMap_cons_some hl, List.mem_cons, not_or] at h
      rw [Option.getD_some, charged_of_ne (Ne.symm h.1) hline, ih h.2]

/-! ## Charges of the sections -/

theorem fileOf_append (xs ys : List AsmSection) : fileOf (xs ++ ys) = fileOf xs ++ fileOf ys :=
  List.flatMap_append

theorem fileOf_cons (s : AsmSection) (xs : List AsmSection) :
    fileOf (s :: xs) = s.lines ++ fileOf xs := rfl

/-- The other sections belong to other functions. -/
theorem SectionsOf.fn_ne {M : Module} {before after : List AsmSection} {s t : AsmSection}
    (h : SectionsOf M (before ++ s :: after)) (ht : t ∈ before ∨ t ∈ after) : t.fn ≠ s.fn := by
  have hnd : ((before ++ s :: after).map AsmSection.fn).Nodup :=
    h.functions.nodup_iff.mpr (List.nodup_range.filter _)
  rw [List.map_append, List.map_cons, List.nodup_append, List.nodup_cons] at hnd
  obtain ⟨-, ⟨hafter, -⟩, hbefore⟩ := hnd
  rcases ht with ht | ht
  · exact hbefore _ (List.mem_map_of_mem ht) _ List.mem_cons_self
  · exact fun heq => hafter (heq ▸ List.mem_map_of_mem ht)

/-- Only the section of its function names the line of an instruction. -/
theorem SectionsOf.line_not_named {M : Module} {sections : List AsmSection} (hM : DistinctLines M)
    (h : SectionsOf M sections) {I : InstructionPtr} {line : InstructionID}
    (hI : (I, some line) ∈ M.instructions) {t : AsmSection} (ht : t ∈ sections)
    (hfn : t.fn ≠ I.parent.fn) : line ∉ t.lines.filterMap locLine := by
  intro hmem
  rcases h.locs t ht line hmem with hzero | ⟨J, hJ, hJfn⟩
  · exact hM.ne_zero line (List.mem_filterMap.mpr ⟨_, hI, rfl⟩) hzero
  · rw [M.ptr_unique_of_nodup hM.nodup hJ hI] at hJfn
    exact hfn hJfn.symm

theorem mem_locs_fileOf {sections : List AsmSection} {line : InstructionID} :
    line ∈ (fileOf sections).filterMap locLine ↔
      ∃ t ∈ sections, line ∈ t.lines.filterMap locLine := by
  rw [fileOf, List.filterMap_flatMap, List.mem_flatMap]

theorem lineFrom_append (current : InstructionID) (xs ys : List Text) :
    lineFrom current (xs ++ ys) = lineFrom (lineFrom current xs) ys := by
  induction xs generalizing current with
  | nil => rfl
  | cons l ls ih => rw [List.cons_append, lineFrom_cons, ih, ← lineFrom_cons]

/-- Sections that do not name the line charge nothing to it, unless a head is entered under it. -/
theorem charged_fileOf_eq_nil {line : InstructionID} (hline : line ≠ 0)
    {sections : List AsmSection} {current : InstructionID}
    (hnot : ∀ t ∈ sections, line ∉ t.lines.filterMap locLine)
    (hhead : ∀ before t after, sections = before ++ t :: after →
      headOpcodes costModel t.lines ≠ [] → lineFrom current (fileOf before) ≠ line) :
    charged costModel line current (fileOf sections) = [] := by
  induction sections generalizing current with
  | nil => rfl
  | cons t ts ih =>
    have hfirst : charged costModel line current t.lines = [] := by
      rw [charged_eq hline, charged_eq_nil hline (hnot t List.mem_cons_self), List.append_nil,
        ite_eq_right_iff]
      intro hcur
      by_contra hne
      exact hhead [] t ts rfl hne hcur
    have hrest : charged costModel line (lineFrom current t.lines) (fileOf ts) = [] := by
      refine ih (fun u hu => hnot u (List.mem_cons_of_mem _ hu)) ?_
      intro before u after hts hne
      rw [← lineFrom_append, ← fileOf_cons]
      exact hhead (t :: before) u after (by rw [hts, List.cons_append]) hne
    rw [fileOf_cons, charged_append, hfirst, hrest, List.append_nil]

/-- Entered at line 0 everywhere, the file charges an instruction what its own section charges. -/
theorem charged_own {M : Module} {sections : List AsmSection} (hM : DistinctLines M)
    (h : SectionsOf M sections) (hzero : EnteredAtZero costModel sections) {s : AsmSection}
    (hs : s ∈ sections) {I : InstructionPtr} {line : InstructionID}
    (hI : (I, some line) ∈ M.instructions) (hfn : I.parent.fn = s.fn) :
    charged costModel line 0 (fileOf sections) = charged costModel line 0 s.lines := by
  have hline : line ≠ 0 := hM.ne_zero line (List.mem_filterMap.mpr ⟨_, hI, rfl⟩)
  obtain ⟨before, after, rfl⟩ := List.append_of_mem hs
  have hother : ∀ t, t ∈ before ∨ t ∈ after → line ∉ t.lines.filterMap locLine := by
    intro t ht
    have hmem : t ∈ before ++ s :: after := by
      rcases ht with ht | ht
      · exact List.mem_append_left _ ht
      · exact List.mem_append_right _ (List.mem_cons_of_mem _ ht)
    refine h.line_not_named hM hI hmem ?_
    rw [hfn]
    exact h.fn_ne ht
  have hbefore : line ∉ (fileOf before).filterMap locLine := by
    intro hmem
    obtain ⟨t, ht, hl⟩ := mem_locs_fileOf.mp hmem
    exact hother t (Or.inl ht) hl
  have hcur : lineFrom 0 (fileOf before) ≠ line := by
    intro heq
    rcases lineFrom_cases 0 (fileOf before) with hc | hc
    · exact hline (heq ▸ hc)
    · exact hbefore (heq ▸ hc)
  have hafter : charged costModel line (lineFrom (lineFrom 0 (fileOf before)) s.lines)
      (fileOf after) = [] := by
    refine charged_fileOf_eq_nil hline (fun t ht => hother t (Or.inr ht)) ?_
    intro mid t rest hsplit hne
    have hent := hzero (before ++ s :: mid) t rest (by simp [hsplit]) hne
    rw [lineAfter_eq, fileOf_append, fileOf_cons, lineFrom_append, lineFrom_append] at hent
    rw [hent]
    exact hline.symm
  rw [fileOf_append, fileOf_cons, charged_append, charged_append, charged_eq_nil hline hbefore,
    charged_of_ne hcur hline, hafter, List.nil_append, List.append_nil]

/-- A head entered under a line of another function is charged to that function. -/
theorem charged_crosses {line : InstructionID} (hline : line ≠ 0) {before mid after : List AsmSection}
    {s t : AsmSection} (hhead : headOpcodes costModel s.lines ≠ [])
    (hcur : lineAfter (fileOf (before ++ t :: mid)) = line) :
    charged costModel line 0 (fileOf (before ++ t :: mid ++ s :: after)) ≠
      charged costModel line 0 t.lines := by
  intro heq
  have hlen := congrArg List.length heq
  rw [lineAfter_eq] at hcur
  rw [fileOf_append, fileOf_cons, charged_append, charged_append, hcur, charged_self hline,
    fileOf_append, fileOf_cons, charged_append, charged_append,
    charged_eq hline (lineFrom 0 (fileOf before)) t.lines] at hlen
  have hpos : 0 < (headOpcodes costModel s.lines).length := List.length_pos_iff.mpr hhead
  simp only [List.length_append] at hlen
  omega

/-! ## Block costs -/

/-- The charges of a block, from the opcodes under its lines. -/
theorem blockCharges_eq_opcodesUnder (occs : List Occurrence) (BB : BasicBlock) :
    blockCharges costModel occs BB = (blockLines BB).flatMap fun line =>
      (opcodesUnder occs line).map fun a => costModel.costOf a.opcodeName := by
  unfold blockCharges opcodesUnder
  congr 1
  funext line
  rw [List.map_map]
  rfl

theorem SectionsOf.decimal_fileOf {M : Module} {sections : List AsmSection}
    (h : SectionsOf M sections) : LocsDecimal (fileOf sections) := by
  intro l hl
  obtain ⟨s, hs, hmem⟩ := List.mem_flatMap.mp hl
  exact h.decimal s hs l hmem

/-- If no cost crosses functions, no head is entered under a line other than 0. -/
theorem OwnCosts.enteredAtZero {M : Module} {sections : List AsmSection} (hM : DistinctLines M)
    (h : SectionsOf M sections) (hown : OwnCosts costModel M sections) :
    EnteredAtZero costModel sections := by
  rintro before s after rfl hhead
  obtain ⟨m, cerr, c, hm, -, hcosts⟩ := hown
  obtain ⟨m', cerr', hm', hext⟩ := @extractMapping_extracted costModel
    (fileOf (before ++ s :: after)) h.decimal_fileOf M hM
  obtain rfl : m' = m := (Prod.mk.inj (Except.ok.inj (hm'.symm.trans hm))).1
  by_contra hne
  -- The current line belongs to an instruction of an earlier section.
  have hnamed : lineAfter (fileOf before) ∈ (fileOf before).filterMap locLine := by
    rw [lineAfter_eq] at hne ⊢
    exact (lineFrom_cases 0 (fileOf before)).resolve_left hne
  obtain ⟨t, ht, hl⟩ := mem_locs_fileOf.mp hnamed
  have htmem : t ∈ before ++ s :: after := List.mem_append_left _ ht
  obtain ⟨I, hI, hIfn⟩ := (h.locs t htmem _ hl).resolve_left hne
  have hcharge := (hcosts t htmem).1 I _ hI hIfn
  rw [hext.located I _ hI, opcodesUnder_occurrences, opcodesUnder_occurrences] at hcharge
  obtain ⟨first, mid, rfl⟩ := List.append_of_mem ht
  exact charged_crosses hne hhead rfl hcharge

theorem EnteredAtZero.ownCosts {M : Module} {sections : List AsmSection} (hM : DistinctLines M)
    (h : SectionsOf M sections) (hzero : EnteredAtZero costModel sections) :
    OwnCosts costModel M sections := by
  obtain ⟨m, cerr, hm, hext⟩ := @extractMapping_extracted costModel (fileOf sections)
    h.decimal_fileOf M hM
  obtain ⟨c, hc, hblock⟩ := create_blockCost hext
  have hunder : ∀ s ∈ sections, ∀ I line, (I, some line) ∈ M.instructions →
      I.parent.fn = s.fn → opcodesUnder (occurrences costModel (fileOf sections)) line =
        opcodesUnder (occurrences costModel s.lines) line := by
    intro s hs I line hI hfn
    rw [opcodesUnder_occurrences, opcodesUnder_occurrences, charged_own hM h hzero hs hI hfn]
  refine ⟨m, cerr, c, hm, hc, fun s hs => ⟨fun I line hI hfn => ?_, fun x hx hfn => ?_⟩⟩
  · rw [hext.located I line hI, hunder s hs I line hI hfn]
  · rw [hblock x hx, blockCharges_eq_opcodesUnder, blockCharges_eq_opcodesUnder]
    congr 1
    refine List.flatMap_congr fun line hline => ?_
    obtain ⟨I, hparent, hI⟩ := exists_of_mem_blockLines hx hline
    rw [hunder s hs I line hI (by rw [hparent, hfn])]

/-- The pipeline keeps every function to the known opcodes of its own section if and only if every
section with a known opcode before its first `.loc` starts under line 0. -/
theorem ownCosts_iff (costModel : AssemblyCostModel) (M : Module) (sections : List AsmSection)
    (hM : DistinctLines M) (h : SectionsOf M sections) :
    OwnCosts costModel M sections ↔ EnteredAtZero costModel sections :=
  ⟨fun hown => hown.enteredAtZero hM h, fun hzero => hzero.ownCosts hM h⟩

/-! ## A weak function after a located one -/

/-- `f` is located at line 1. The weak `g` got no lines. -/
def weakModule : Module where
  functions := [
    { type := ⟨.void, []⟩, blocks := [⟨[], { op := .ret none, debugLoc := some 1 }⟩] },
    { type := ⟨.void, []⟩, linkage := .weakAny, blocks := [⟨[], { op := .ret none }⟩] }]

def weakHead : AsmSection where
  fn := 0
  lines := ["f:".toList, "	.loc	1 1 0".toList, "	return".toList]

def weakTail : AsmSection where
  fn := 1
  lines := ["g:".toList, "	i32.add".toList, "	return".toList]

theorem weakModule_distinctLines : DistinctLines weakModule := by
  have hlines : weakModule.locatedLines = [1] := rfl
  refine ⟨by rw [hlines]; exact List.nodup_singleton 1, fun line hline => ?_⟩
  rw [hlines] at hline
  rw [List.mem_singleton.mp hline]
  decide

theorem weakModule_sectionsOf : SectionsOf weakModule [weakHead, weakTail] where
  functions := List.Perm.refl [0, 1]
  decimal := by
    intro s hs
    rcases List.mem_pair.mp hs with rfl | rfl <;> decide +kernel
  locs := by
    intro s hs line hline
    rcases List.mem_pair.mp hs with rfl | rfl
    · have hlocs : weakHead.lines.filterMap locLine = [1] := by decide +kernel
      rw [hlocs] at hline
      obtain rfl := List.mem_singleton.mp hline
      exact Or.inr ⟨⟨⟨0, 0⟩, 0⟩, List.mem_cons_self, rfl⟩
    · have hlocs : weakTail.lines.filterMap locLine = [] := by decide +kernel
      rw [hlocs] at hline
      exact absurd hline List.not_mem_nil
  skipped := by
    intro s hs F hF hexact
    rcases List.mem_pair.mp hs with rfl | rfl
    · obtain rfl := Option.some.inj hF
      exact absurd hexact.symm Bool.false_ne_true
    · decide +kernel

/-- The opcodes of the weak `g` are charged to the `ret` of `f`. -/
theorem weakModule_not_ownCosts :
    DistinctLines weakModule ∧ SectionsOf weakModule [weakHead, weakTail] ∧
      ¬ OwnCosts sampleCosts weakModule [weakHead, weakTail] := by
  refine ⟨weakModule_distinctLines, weakModule_sectionsOf, fun hown => ?_⟩
  have hzero := hown.enteredAtZero weakModule_distinctLines weakModule_sectionsOf [weakHead]
    weakTail [] rfl (by decide +kernel)
  exact absurd hzero (by decide +kernel)

theorem ownCosts_iff_weakModule :
    OwnCosts sampleCosts weakModule [weakHead, weakTail] ↔
      EnteredAtZero sampleCosts [weakHead, weakTail] :=
  ownCosts_iff sampleCosts weakModule [weakHead, weakTail] weakModule_distinctLines
    weakModule_sectionsOf

end Gpscat
