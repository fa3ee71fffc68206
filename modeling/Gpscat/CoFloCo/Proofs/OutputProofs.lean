import Gpscat.CoFloCo.Output
import Gpscat.Lib.Proofs.CppStringProofs

/-!
# Complete and truncated outputs of CoFloCo

The bound of a complete output is found, whatever stands around it. A cut before the line of the
maximum cost leaves no such line. A cut inside it leaves a line that the parser takes for complete,
and every place of the cut is a case of its own.
-/

namespace Gpscat.CoFloCoWrapper

open Cpp

/-! ## Lines -/

theorem compareHead_maximumCost {line : Text} :
    compareHead line 16 maximumCost = true ↔ maximumCost <+: line := by
  rw [compareHead, beq_iff_eq, List.prefix_iff_eq_take]
  exact eq_comm

theorem parseLines_skip {line : Text} (h : ¬ maximumCost <+: line) (ls : List Text) :
    parseLines (line :: ls) = parseLines ls := by
  rw [parseLines, if_neg fun hc => h (compareHead_maximumCost.mp hc)]

theorem parseLines_found {line : Text} (h : maximumCost <+: line) (ls : List Text) :
    parseLines (line :: ls) = substr line (posAdd (find [':'] line) 2) := by
  rw [parseLines, if_pos (compareHead_maximumCost.mpr h)]

/-- A text without the start of the line yields the empty string, also when it is cut. -/
theorem parse_unfinished {line : Text} (hline : '\n' ∉ line) (h : ¬ maximumCost <+: line) :
    parseCoFloCoOutput line = .ok [] := by
  rcases eq_or_ne line [] with rfl | hne
  · rfl
  · rw [parseCoFloCoOutput, lines_of_notMem hne hline, parseLines_skip h]
    rfl

/-- A cut of a text with leading lines. -/
theorem parse_take_unlines {leads : List Text} (rest : Text) (hlines : ∀ line ∈ leads, '\n' ∉ line)
    (hother : ∀ line ∈ leads, ¬ maximumCost <+: line) (k : Nat) :
    parseCoFloCoOutput ((unlines leads ++ rest).take k) =
      if k < (unlines leads).length then .ok []
      else parseCoFloCoOutput (rest.take (k - (unlines leads).length)) := by
  induction leads generalizing k with
  | nil => simp [unlines]
  | cons line leads ih =>
    have hline := hlines line List.mem_cons_self
    have hnot := hother line List.mem_cons_self
    have ih := ih (fun l hl => hlines l (List.mem_cons_of_mem line hl))
      fun l hl => hother l (List.mem_cons_of_mem line hl)
    rw [unlines, List.append_assoc, List.cons_append, List.length_append, List.length_cons]
    rcases Nat.lt_or_ge line.length k with hk | hk
    · obtain ⟨m, rfl⟩ := Nat.exists_eq_add_of_lt hk
      have htake : (line ++ '\n' :: (unlines leads ++ rest)).take (line.length + m + 1) =
          line ++ '\n' :: (unlines leads ++ rest).take m := by
        rw [Nat.add_assoc, List.take_length_add_append, List.take_succ_cons]
      rw [htake, parseCoFloCoOutput, lines_append hline, parseLines_skip hnot]
      refine (ih m).trans ?_
      rw [show line.length + m + 1 - (line.length + ((unlines leads).length + 1)) =
        m - (unlines leads).length by omega]
      exact if_congr (by omega) rfl rfl
    · rw [List.take_append_of_le_length hk, if_pos (by omega)]
      refine parse_unfinished (fun h => hline (List.mem_of_mem_take h)) fun h => hnot ?_
      exact h.trans (List.take_prefix k line)

/-- Leading lines are skipped, whatever their lengths. -/
theorem parse_unlines {leads : List Text} (rest : Text) (hlines : ∀ line ∈ leads, '\n' ∉ line)
    (hother : ∀ line ∈ leads, ¬ maximumCost <+: line) :
    parseCoFloCoOutput (unlines leads ++ rest) = parseCoFloCoOutput rest := by
  have hwhole := parse_take_unlines rest hlines hother (unlines leads ++ rest).length
  rwa [List.take_length, List.length_append, if_neg (Nat.not_lt.mpr (Nat.le_add_right _ _)),
    Nat.add_sub_cancel_left, List.take_length] at hwhole

/-! ## The line of the maximum cost -/

namespace Report

variable (r : Report)

theorem header_colon : ':' ∉ r.header := by
  rw [header, List.mem_append]
  rintro (h | h)
  · exact absurd h (by decide)
  · exact r.head_colon h

theorem header_line : '\n' ∉ r.header := by
  rw [header, List.mem_append]
  rintro (h | h)
  · exact absurd h (by decide)
  · exact r.head_line h

theorem maximumCost_header : maximumCost <+: r.header := by
  rw [header, List.append_assoc]
  exact List.prefix_append _ _

theorem header_length : 20 ≤ r.header.length := by
  rw [header, List.length_append]
  exact Nat.le_add_right 20 _

theorem costLine_eq : r.costLine = r.header ++ ':' :: ' ' :: r.bound := by
  rw [costLine, List.append_assoc]
  rfl

theorem costLine_length : r.costLine.length = r.header.length + 2 + r.bound.length := by
  rw [costLine_eq, List.length_append]
  simp only [List.length_cons]
  omega

theorem costLine_line : '\n' ∉ r.costLine := by
  rw [costLine_eq, List.mem_append]
  rintro (h | h)
  · exact r.header_line h
  · rcases List.mem_cons.mp h with h | h
    · exact absurd h (by decide)
    · rcases List.mem_cons.mp h with h | h
      · exact absurd h (by decide)
      · exact r.bound_line h

theorem maximumCost_take {i : Nat} (hi : 16 ≤ i) : maximumCost <+: r.costLine.take i := by
  rw [List.prefix_take_iff]
  refine ⟨?_, hi⟩
  rw [costLine_eq]
  exact r.maximumCost_header.trans (List.prefix_append _ _)

/-- The line of the maximum cost, cut after `i` characters: three places of the cut. -/
theorem parseLines_take_costLine {i : Nat} (hi : 16 ≤ i) (ls : List Text) :
    parseLines (r.costLine.take i :: ls) =
      if i ≤ r.header.length then .ok (r.header.take i).tail
      else if i = r.header.length + 1 then .error .outOfRange
      else .ok (r.bound.take (i - (r.header.length + 2))) := by
  have hheader := r.header_length
  rw [parseLines_found (r.maximumCost_take hi), costLine_eq]
  split_ifs with h₁ h₂
  · -- There is no colon: `npos + 2` is 1.
    rw [List.take_append_of_le_length h₁,
      find_singleton_of_notMem fun h => r.header_colon (List.mem_of_mem_take h), posAdd, substr,
      if_pos (by rw [List.length_take]; omega), List.drop_one]
  · -- The line ends with the colon, and the position is past its end.
    rw [h₂, List.take_length_add_append, List.take_succ_cons, List.take_zero,
      find_singleton_append r.header_colon, posAdd, substr, if_neg]
    rw [List.length_append, List.length_singleton]
    omega
  · obtain ⟨m, rfl⟩ := Nat.exists_eq_add_of_le (show r.header.length + 2 ≤ i by omega)
    rw [Nat.add_assoc, List.take_length_add_append, Nat.add_comm 2 m, List.take_succ_cons,
      List.take_succ_cons, find_singleton_append r.header_colon, posAdd, substr, if_pos,
      List.drop_length_add_append]
    · rw [show r.header.length + (m + 2) - (r.header.length + 2) = m by omega]
      rfl
    · rw [List.length_append, List.length_cons, List.length_cons]
      omega

/-- The parser on the line of the maximum cost, cut after `i` characters. -/
theorem parse_take_costLine {i : Nat} (hi : 16 ≤ i) :
    parseCoFloCoOutput (r.costLine.take i) = parseLines [r.costLine.take i] := by
  have hne : r.costLine.take i ≠ [] := by
    intro h
    have hstart := r.maximumCost_take hi
    rw [h] at hstart
    exact absurd hstart (by decide)
  have hline : '\n' ∉ r.costLine.take i := fun h => r.costLine_line (List.mem_of_mem_take h)
  rw [parseCoFloCoOutput, lines_of_notMem hne hline]

/-- A cut before the line has started leaves nothing to find. -/
theorem parse_take_costLine_short {i : Nat} (hi : i < 16) :
    parseCoFloCoOutput (r.costLine.take i) = .ok [] := by
  refine parse_unfinished (fun h => r.costLine_line (List.mem_of_mem_take h)) fun h => ?_
  have hlen := h.length_le
  rw [List.length_take] at hlen
  change 16 ≤ min i _ at hlen
  omega

/-- The bound is cut out of the line, at the first colon. -/
theorem parseLines_costLine (ls : List Text) : parseLines (r.costLine :: ls) = .ok r.bound := by
  have hlen := r.costLine_length
  have hheader := r.header_length
  have hwhole := r.parseLines_take_costLine (show 16 ≤ r.costLine.length by omega) ls
  rwa [List.take_length, if_neg (by omega), if_neg (by omega),
    List.take_of_length_le (by omega)] at hwhole

/-- The line alone, without a newline. -/
theorem parse_costLine_end : parseCoFloCoOutput r.costLine = .ok r.bound := by
  have hlen := r.costLine_length
  have hheader := r.header_length
  have hwhole := r.parse_take_costLine (show 16 ≤ r.costLine.length by omega)
  rwa [List.take_length, parseLines_costLine] at hwhole

/-- Whatever follows the line, the bound is found. -/
theorem parse_costLine (s : Text) : parseCoFloCoOutput (r.costLine ++ '\n' :: s) = .ok r.bound := by
  rw [parseCoFloCoOutput, lines_append r.costLine_line, parseLines_costLine]

/-- A cut inside the header: only by coincidence is the rest of it the bound. -/
theorem neverPartial_header {i : Nat} (h16 : 16 ≤ i) (hi : i ≤ r.header.length) :
    NeverPartial r (.ok (r.header.take i).tail) ↔ HarmlessCut r i := by
  have hlen := r.costLine_length
  have hne : (r.header.take i).tail ≠ [] := by
    rw [← List.length_pos_iff, List.length_tail, List.length_take]
    omega
  constructor
  · rintro (h | h)
    · exact .inr (.inr (.inr ⟨hi, Except.ok.inj h⟩))
    · exact absurd (Except.ok.inj h) hne
  · rintro (h | h | h | ⟨-, h⟩)
    · omega
    · omega
    · omega
    · exact .inl (congrArg _ h)

/-- A cut inside the bound, or at one of its ends. -/
theorem neverPartial_bound {i : Nat} (hi : r.header.length + 2 ≤ i) :
    NeverPartial r (.ok (r.bound.take (i - (r.header.length + 2)))) ↔ HarmlessCut r i := by
  have hlen := r.costLine_length
  have hheader := r.header_length
  constructor
  · rintro (h | h)
    · have hwhole := congrArg List.length (Except.ok.inj h)
      rw [List.length_take] at hwhole
      exact .inr (.inr (.inl (by omega)))
    · have hempty := congrArg List.length (Except.ok.inj h)
      rw [List.length_take, List.length_nil] at hempty
      rcases Nat.min_eq_zero_iff.mp hempty with h0 | h0
      · exact .inr (.inl (by omega))
      · exact .inr (.inr (.inl (by omega)))
  · rintro (h | h | h | ⟨h, -⟩)
    · omega
    · right
      rw [show i - (r.header.length + 2) = 0 by omega, List.take_zero]
    · left
      rw [List.take_of_length_le (by omega)]
    · omega

/-- The parser on the line of the maximum cost and what follows it, cut after `i` characters. -/
theorem neverPartial_costLine (i : Nat) :
    NeverPartial r (parseCoFloCoOutput ((r.costLine ++ '\n' :: r.trail).take i)) ↔
      HarmlessCut r i := by
  have hlen := r.costLine_length
  have hheader := r.header_length
  rcases Nat.lt_or_ge r.costLine.length i with hi | hi
  · obtain ⟨m, rfl⟩ := Nat.exists_eq_add_of_lt hi
    rw [Nat.add_assoc, List.take_length_add_append, List.take_succ_cons, r.parse_costLine]
    exact iff_of_true (.inl rfl) (.inr (.inr (.inl (by omega))))
  · rw [List.take_append_of_le_length hi]
    rcases Nat.lt_or_ge i 16 with h16 | h16
    · rw [r.parse_take_costLine_short h16]
      exact iff_of_true (.inr rfl) (.inl h16)
    · rw [r.parse_take_costLine h16, r.parseLines_take_costLine h16]
      split_ifs with h₁ h₂
      · exact r.neverPartial_header h16 h₁
      · refine iff_of_false ?_ ?_
        · rintro (h | h) <;> exact absurd h (by simp)
        · rintro (h | h | h | ⟨h, -⟩) <;> omega
      · exact r.neverPartial_bound (by omega)

end Report

/-- **Parsing undoes the format** of the report: the bound is returned as it was printed, whatever
the bound and the other lines contain, and whether or not the file ends with a newline. -/
theorem parse_report (r : Report) :
    parseCoFloCoOutput r.text = .ok r.bound ∧
    (∀ trailing, parseCoFloCoOutput (unlines (r.leads ++ r.costLine :: trailing)) = .ok r.bound) ∧
    parseCoFloCoOutput (unlines r.leads ++ r.costLine) = .ok r.bound := by
  have hskip := fun rest => parse_unlines rest r.leads_lines r.leads_other
  refine ⟨?_, fun trailing => ?_, ?_⟩
  · rw [Report.text, hskip]
    exact r.parse_costLine r.trail
  · rw [unlines_append, hskip, unlines]
    exact r.parse_costLine (unlines trailing)
  · rw [hskip]
    exact r.parse_costLine_end

/-- **Truncated outputs**: the parser takes no part of the line for a bound, and does not throw,
exactly at the harmless cuts. -/
theorem neverPartial_iff (r : Report) (k : Nat) :
    NeverPartial r (parseCoFloCoOutput (r.text.take k)) ↔
      HarmlessCut r (k - (unlines r.leads).length) := by
  rw [Report.text, parse_take_unlines _ r.leads_lines r.leads_other]
  split_ifs with h
  · exact iff_of_true (.inr rfl) (.inl (by omega))
  · exact r.neverPartial_costLine _

/-- A report of one line. -/
def sampleReport : Report where
  leads := []
  head := "f(A)".toList
  bound := "nat(A)".toList
  trail := []
  leads_lines := by simp
  leads_other := by simp
  head_colon := by decide
  head_line := by decide
  bound_line := by decide

/-- Cut inside its header, the report yields most of the header as the bound. -/
theorem sampleReport_cut_header :
    ¬ NeverPartial sampleReport (parseCoFloCoOutput (sampleReport.text.take 24)) := by
  have hresult : parseCoFloCoOutput (sampleReport.text.take 24) =
    .ok "## Maximum cost of f(A)".toList := rfl
  rw [hresult]
  rintro (h | h)
  · exact absurd (Except.ok.inj h) (by decide)
  · exact absurd (Except.ok.inj h) (by decide)

end Gpscat.CoFloCoWrapper
