import Gpscat.Csv.Proofs.ReaderProofs

/-!
# The fields of a row

`get_string_view` takes a field that ends at position 0 for one whose end is not known. So it yields
the text of the whole row for every field, but the last one, before which and in which there is no
text.
-/

namespace Csv

open Cpp

theorem getD_splitsFrom {fields : List Text} {n : Nat} (hn : n + 1 < fields.length) (pos : Nat) :
    (splitsFrom pos fields).getD n 0 =
      BitVec.ofNat 16 (pos + (fields.take (n + 1)).flatten.length) := by
  induction fields generalizing n pos with
  | nil => exact absurd hn (Nat.not_lt_zero _)
  | cons field fields ih =>
    cases fields with
    | nil => simp at hn
    | cons next fields =>
      cases n with
      | zero => simp [splitsFrom]
      | succ n =>
        have hrest := ih (n := n) (by simpa using hn) (pos + field.length)
        simpa [splitsFrom, Nat.add_assoc] using hrest

variable {fields : List Text} (hpos : 0 < fields.length) (hcols : fields.length < 2 ^ 16)
  (hlen : fields.flatten.length < 2 ^ 16)

theorem length_flatten_take_le (fields : List Text) (n : Nat) :
    (fields.take n).flatten.length ≤ fields.flatten.length := by
  conv_rhs => rw [← List.take_append_drop n fields, List.flatten_append, List.length_append]
  exact Nat.le_add_right _ _

include hlen in
theorem splitAt_rowOf {n : Nat} (hn : n + 1 < fields.length) :
    (rowOf fields).splitAt n = (fields.take (n + 1)).flatten.length := by
  have hle := length_flatten_take_le fields (n + 1)
  show ((splitsFrom 0 fields).getD n 0).toNat = _
  rw [getD_splitsFrom hn, Nat.zero_add, BitVec.toNat_ofNat, Nat.mod_eq_of_lt (by omega)]

include hpos hcols hlen in
theorem bounds_rowOf {n : Nat} (hn : n < fields.length) :
    (rowOf fields).bounds n =
      ((fields.take n).flatten.length,
        if n + 1 < fields.length then (fields.take (n + 1)).flatten.length else 0) := by
  have hsize := CSVReader.size_rowOf hpos hcols
  have hsplit : ∀ m, m + 1 < fields.length → (rowOf fields).splitAt m =
      (fields.take (m + 1)).flatten.length := fun m hm => splitAt_rowOf hlen hm
  unfold CSVRow.bounds
  rw [hsize]
  by_cases hone : fields.length > 1
  · rw [if_pos hone]
    cases n with
    | zero =>
      rw [if_pos rfl, if_pos hone, hsplit 0 hone]
      rfl
    | succ n =>
      rw [if_neg (Nat.succ_ne_zero n), Nat.add_sub_cancel]
      by_cases htwo : fields.length = 2
      · obtain rfl : n = 0 := by omega
        rw [if_pos htwo, hsplit 0 hone, if_neg (by omega)]
      · rw [if_neg htwo, hsplit n hn]
        by_cases hlast : n + 1 + 1 < fields.length
        · rw [if_pos hlast, if_pos (by omega), hsplit (n + 1) hlast]
        · rw [if_neg hlast, if_neg (by omega)]
  · obtain rfl : n = 0 := by omega
    rw [if_neg hone, if_neg (by omega)]
    rfl

/-- `substr` between two positions. -/
theorem take_drop_between (before text behind : Text)
    (hlen : (before ++ text ++ behind).length < 2 ^ 16) :
    ((before ++ text ++ behind).drop before.length).take
      ((before.length + text.length + 2 ^ 64 - before.length) % 2 ^ 64) = text := by
  have hcount : (before.length + text.length + 2 ^ 64 - before.length) % 2 ^ 64 = text.length := by
    rw [List.length_append, List.length_append] at hlen
    have hsub : before.length + text.length + 2 ^ 64 - before.length = text.length + 2 ^ 64 := by
      omega
    rw [hsub, Nat.add_mod_right, Nat.mod_eq_of_lt (by omega)]
  rw [hcount, List.append_assoc, List.drop_left, List.take_left]

include hpos hcols hlen in
/-- The fields of a row as the code yields them. -/
theorem stringView_rowOf {n : Nat} (hn : n < fields.length) :
    (rowOf fields).stringView n =
      if n + 1 < fields.length ∧ (fields.take (n + 1)).flatten = [] then fields.flatten
      else fields[n] := by
  have hsplit : fields.flatten =
      (fields.take n).flatten ++ fields[n] ++ (fields.drop (n + 1)).flatten := by
    conv_lhs => rw [← List.take_append_drop n fields, List.drop_eq_getElem_cons hn,
      List.flatten_append, List.flatten_cons, ← List.append_assoc]
  have htake : (fields.take (n + 1)).flatten = (fields.take n).flatten ++ fields[n] := by
    rw [List.take_succ_eq_append_getElem hn, List.flatten_append, List.flatten_singleton]
  have hview := take_drop_between (fields.take n).flatten fields[n] (fields.drop (n + 1)).flatten
    (by rwa [← hsplit])
  rw [← hsplit] at hview
  have hrow : (rowOf fields).rowStr = fields.flatten := rfl
  rw [CSVRow.stringView, bounds_rowOf hpos hcols hlen hn, hrow]
  dsimp only
  by_cases hlast : n + 1 < fields.length
  · rw [if_pos hlast]
    by_cases hempty : (fields.take (n + 1)).flatten = []
    · -- The end is 0, so the field goes from 0 to the end of the row.
      have hbegin : (fields.take n).flatten = [] := (List.append_eq_nil_iff.mp (htake ▸ hempty)).1
      have hzero : (fields.take (n + 1)).flatten.length = 0 := by rw [hempty]; rfl
      rw [if_pos hzero, if_pos (And.intro hlast hempty), hbegin, List.length_nil, List.drop_zero,
        Nat.sub_zero, Nat.add_mod_right, Nat.mod_eq_of_lt (by omega), List.take_length]
    · have hne : (fields.take (n + 1)).flatten.length ≠ 0 := fun h =>
        hempty (List.length_eq_zero_iff.mp h)
      rw [if_neg hne, if_neg (not_and_of_not_right _ hempty), htake, List.length_append]
      exact hview
  · have hbehind : (fields.drop (n + 1)).flatten = [] := by
      rw [List.drop_eq_nil_of_le (by omega)]
      rfl
    have hend : fields.flatten.length = (fields.take n).flatten.length + fields[n].length := by
      conv_lhs => rw [hsplit, hbehind, List.append_nil, List.length_append]
    rw [if_neg hlast, if_pos rfl, if_neg (not_and_of_not_left _ hlast), hend]
    exact hview

include hpos hcols hlen in
/-- The fields of a row come back when the row has a first field or no text at all. -/
theorem toVector_rowOf_iff : (rowOf fields).toVector = fields ↔ Leads fields := by
  have hsize := CSVReader.size_rowOf hpos hcols
  have hget : ∀ n (hn : n < fields.length),
      (rowOf fields).toVector[n]? = some ((rowOf fields).stringView n) := by
    intro n hn
    rw [CSVRow.toVector, hsize, List.getElem?_map, List.getElem?_range hn, Option.map_some]
  constructor
  · intro heq
    by_contra hnot
    rw [Leads, not_or, not_not] at hnot
    obtain ⟨hhead, htext⟩ := hnot
    have hfirst : fields[0] = [] := by
      rw [List.head?_eq_getElem?, List.getElem?_eq_getElem hpos] at hhead
      exact Option.some.inj hhead
    have hview := hget 0 hpos
    rw [heq, List.getElem?_eq_getElem hpos, hfirst, stringView_rowOf hpos hcols hlen hpos] at hview
    have hzero : (fields.take (0 + 1)).flatten = [] := by
      rw [List.take_succ_eq_append_getElem hpos, hfirst]
      simp
    by_cases hone : 0 + 1 < fields.length
    · rw [if_pos ⟨hone, hzero⟩] at hview
      exact htext (Option.some.inj hview).symm
    · have hall : fields.take (0 + 1) = fields := List.take_of_length_le (by omega)
      rw [hall] at hzero
      exact htext hzero
  · intro hleads
    refine List.ext_getElem? fun n => ?_
    by_cases hn : n < fields.length
    · rw [hget n hn, stringView_rowOf hpos hcols hlen hn, List.getElem?_eq_getElem hn]
      congr 1
      split_ifs with hempty
      · rcases hleads with hhead | htext
        · -- The first field is part of the text before the end of the field.
          have hfirst : fields[0] ∈ fields.take (n + 1) := by
            rw [List.mem_take_iff_getElem]
            exact ⟨0, by omega, rfl⟩
          have hnil := List.flatten_eq_nil_iff.mp hempty.2 _ hfirst
          rw [List.head?_eq_getElem?, List.getElem?_eq_getElem hpos, hnil] at hhead
          exact absurd rfl hhead
        · rw [htext]
          exact (List.flatten_eq_nil_iff.mp htext _ (List.getElem_mem hn)).symm
      · rfl
    · have hlength : (rowOf fields).toVector.length = fields.length := by
        rw [CSVRow.toVector, List.length_map, List.length_range, hsize]
      rw [List.getElem?_eq_none (by omega), List.getElem?_eq_none (by omega)]

/-! ## Reading a table back -/

theorem length_of_mem_joined {k : Nat} {rows : List (List Text)}
    (hrows : ∀ row ∈ rows, row.length = k ∨ row.length = 1) (pending : Text) :
    ∀ row ∈ (joined pending rows).1, 2 ≤ row.length ∧ row.length = k := by
  fun_induction joined pending rows with
  | case1 => exact fun row hrow => absurd hrow List.not_mem_nil
  | case2 pending rows ih => exact ih fun row hrow => hrows row (List.mem_cons_of_mem _ hrow)
  | case3 pending comment rows ih => exact ih fun row hrow => hrows row (List.mem_cons_of_mem _ hrow)
  | case4 pending field next fields rows rest ih =>
    intro row hrow
    rcases List.mem_cons.mp hrow with rfl | hrow
    · have hlen := hrows (field :: next :: fields) List.mem_cons_self
      simp only [List.length_cons] at hlen ⊢
      omega
    · exact ih (fun row hrow => hrows row (List.mem_cons_of_mem _ hrow)) row hrow

/-- **What is written is read back**, whatever the line ends are, exactly when every row has a first
field or no text at all. Lines of a single field are joined to the rows behind them. -/
theorem readsBack_iff {delim : Char} (hdelim : delim ≠ '"' ∧ delim ≠ '\r' ∧ delim ≠ '\n')
    {header : Line} {lines : List Line} (hcols : 2 ≤ header.fields.length)
    (hlt : header.fields.length < 2 ^ 16)
    (hlines : ∀ l ∈ header :: lines, WellFormed delim header.fields.length l)
    (hterm : Terminated delim (header :: lines))
    (hfirst : ∀ field ∈ header.fields.head?, needsQuotes delim field = false)
    (hlen : ∀ row ∈ header.fields :: (joined [] (lines.map Line.fields)).1,
      row.flatten.length < 2 ^ 16) :
    ReadsBack delim header lines (joined [] (lines.map Line.fields)).1 ↔
      ∀ row ∈ header.fields :: (joined [] (lines.map Line.fields)).1, Leads row := by
  have hparse := CSVReader.parse_fileText hdelim hcols hlt hlines hterm hfirst
  have hlength : ∀ row ∈ lines.map Line.fields,
      row.length = header.fields.length ∨ row.length = 1 := by
    intro row hrow
    obtain ⟨l, hl, rfl⟩ := List.mem_map.mp hrow
    exact (hlines l (List.mem_cons_of_mem _ hl)).length.imp_right And.left
  have hrow : ∀ row ∈ header.fields :: (joined [] (lines.map Line.fields)).1,
      (rowOf row).toVector = row ↔ Leads row := by
    intro row hrow
    have hcount : 0 < row.length ∧ row.length < 2 ^ 16 := by
      rcases List.mem_cons.mp hrow with rfl | hmem
      · omega
      · have := length_of_mem_joined hlength [] row hmem
        omega
    exact toVector_rowOf_iff hcount.1 hcount.2 (hlen row hrow)
  generalize joined [] (lines.map Line.fields) = result at *
  constructor
  · rintro ⟨hnames, hrecords⟩ row hmem
    rw [hparse] at hnames hrecords
    rcases List.mem_cons.mp hmem with rfl | hrest
    · exact (hrow _ hmem).mp hnames
    · have hsame : result.1.map (fun row => (rowOf row).toVector) = result.1.map id := by
        rw [List.map_id]
        rwa [CSVReader.append, tableReader, List.map_map] at hrecords
      exact (hrow row hmem).mp (List.map_inj_left.mp hsame row hrest)
  · intro hleads
    constructor
    · rw [hparse]
      exact (hrow _ List.mem_cons_self).mpr (hleads _ List.mem_cons_self)
    · have hsame : result.1.map (fun row => (rowOf row).toVector) = result.1.map id := by
        refine List.map_congr_left fun row hmem => ?_
        exact (hrow row (List.mem_cons_of_mem _ hmem)).mpr (hleads row (List.mem_cons_of_mem _ hmem))
      rw [List.map_id] at hsame
      rw [hparse, CSVReader.append, tableReader, List.map_map]
      exact hsame

def sampleHeader : Line := ⟨["Opcode".toList, "Cost".toList], "\r\n".toList⟩

/-- Blank lines, a comment, quotes, and no line end behind the last line. -/
def sampleLines : List Line := [
  ⟨["local.get".toList, "135".toList], "\r\n\r\n".toList⟩,
  ⟨["# calls".toList], "\n".toList⟩,
  ⟨["call \"f\", direct".toList, "7".toList], "\n".toList⟩,
  ⟨["i32.add".toList, []], []⟩]

example : joined [] (sampleLines.map Line.fields) =
    ([["local.get".toList, "135".toList], ["# callscall \"f\", direct".toList, "7".toList],
      ["i32.add".toList, []]], []) := by
  decide

theorem readsBack_iff_sampleLines :
    ReadsBack ',' sampleHeader sampleLines (joined [] (sampleLines.map Line.fields)).1 ↔
      ∀ row ∈ sampleHeader.fields :: (joined [] (sampleLines.map Line.fields)).1, Leads row :=
  readsBack_iff (by decide) (by decide) (by decide) (by decide) (by decide) (by decide) (by decide)

end Csv
