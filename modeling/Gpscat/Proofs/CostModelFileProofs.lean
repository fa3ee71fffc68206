import Gpscat.CostModelFile
import Gpscat.Csv.Proofs.FieldProofs
import Gpscat.Csv.Proofs.FileProofs

/-!
# Reading a cost model

A table of opcodes and costs becomes the cost model with these entries when it has a row and every
cost fits. Otherwise no cost model is made.
-/

namespace Csv

open Cpp

/-! ## Columns -/

namespace CSVRow

theorem lookup_colPos {names : List Text} (hnodup : names.Nodup) (name : Text) :
    (colPos names).lookup name = if name ∈ names then some (names.idxOf name) else none := by
  induction names using List.reverseRecOn with
  | nil => rfl
  | append_singleton names last ih =>
    obtain ⟨hnames, hlast⟩ := List.nodup_append.mp hnodup |>.imp_right fun h => h.2
    have hnotin : last ∉ names := fun h => hlast last h last List.mem_cons_self rfl
    have hcons : colPos (names ++ [last]) = (colPos names).insert last names.length := by
      rw [colPos, List.zipIdx_append, List.foldl_append]
      simp [colPos]
    rw [hcons]
    by_cases hname : name = last
    · subst hname
      rw [AList.lookup_insert, if_pos (by simp), List.idxOf_append_of_notMem hnotin]
      simp
    · rw [AList.lookup_insert_ne hname, ih hnames]
      by_cases hmem : name ∈ names
      · rw [if_pos hmem, if_pos (by simp [hmem]), List.idxOf_append_of_mem hmem]
      · rw [if_neg hmem, if_neg (by simp [hmem, hname])]

/-- A field by the name of its column. -/
theorem field_rowOf {names row : List Text} (hnodup : names.Nodup) {name : Text}
    (hname : name ∈ names) (hlength : row.length = names.length) (hcols : names.length < 2 ^ 16)
    (hlen : row.flatten.length < 2 ^ 16) (hleads : Leads row) :
    (rowOf row).field names name = .ok (row.getD (names.idxOf name) []) := by
  have hidx : names.idxOf name < row.length := by
    rw [hlength]
    exact List.idxOf_lt_length_of_mem hname
  have hpos : 0 < row.length := Nat.zero_lt_of_lt hidx
  have hcols' : row.length < 2 ^ 16 := by omega
  have hsize := CSVReader.size_rowOf hpos hcols'
  have hview : (rowOf row).toVector[names.idxOf name]? =
      some ((rowOf row).stringView (names.idxOf name)) := by
    rw [toVector, hsize, List.getElem?_map, List.getElem?_range hidx, Option.map_some]
  rw [(toVector_rowOf_iff hpos hcols' hlen).mpr hleads] at hview
  rw [field, lookup_colPos hnodup, if_pos hname]
  dsimp only
  rw [getStringView, hsize, if_neg (Nat.not_le.mpr hidx), List.getD, hview, Option.getD_some]

end CSVRow

end Csv

namespace Gpscat.AssemblyCostModel

open Cpp Csv

variable {header : Line} {lines : List Line}

/-! ## Rows -/

/-- A row that the table has. -/
structure Listed (names row : List Text) : Prop where
  length : row.length = names.length
  short : row.flatten.length < 2 ^ 16
  leads : Leads row

theorem CostTable.listed (htable : CostTable header lines) :
    ∀ row ∈ (joined [] (lines.map Line.fields)).1, Listed header.fields row := by
  have hlength : ∀ row ∈ lines.map Line.fields,
      row.length = header.fields.length ∨ row.length = 1 := by
    intro row hrow
    obtain ⟨l, hl, rfl⟩ := List.mem_map.mp hrow
    exact (htable.wellFormed l (List.mem_cons_of_mem _ hl)).length.imp_right And.left
  intro row hrow
  exact ⟨(length_of_mem_joined hlength [] row hrow).2,
    htable.short row (List.mem_cons_of_mem _ hrow), htable.leads row (List.mem_cons_of_mem _ hrow)⟩

/-- A cost that fits is set, and any other one stops the loop. -/
theorem readRow_rowOf (htable : CostTable header lines) {row : List Text}
    (hrow : Listed header.fields row) {e : Text × Int} (he : Entry header.fields row e)
    (m : AssemblyCostModel) :
    readRow header.fields m (rowOf row) =
      (getInt32 (column header.fields row "Cost".toList)).map fun cost => m.set e.1 cost := by
  have hfield : ∀ name ∈ header.fields,
      (rowOf row).field header.fields name = .ok (column header.fields row name) :=
    fun name hname => CSVRow.field_rowOf htable.names hname hrow.length htable.columns.2 hrow.short
      hrow.leads
  rw [readRow, hfield _ htable.cost, hfield _ htable.opcode, he.1]
  show (getInt32 (column header.fields row "Cost".toList)).bind
    (fun cost => .ok (m.set e.1 cost)) = _
  cases getInt32 (column header.fields row "Cost".toList) with
  | error => rfl
  | ok => rfl

theorem foldlM_readRow_iff (htable : CostTable header lines) {rows : List (List Text)}
    (hrows : ∀ row ∈ rows, Listed header.fields row) {entries : List (Text × Int)}
    (hentries : List.Forall₂ (Entry header.fields) rows entries) (m m' : AssemblyCostModel) :
    (rows.map rowOf).foldlM (readRow header.fields) m = .ok m' ↔
      (∀ e ∈ entries, e.2.natAbs < 2 ^ 31 - 1) ∧
        m' = (entries.map fun e => (e.1, BitVec.ofInt 32 e.2)).foldl
          (fun m row => m.set row.1 row.2) m := by
  induction hentries generalizing m with
  | nil =>
    simp only [List.map_nil, List.foldlM_nil, List.foldl_nil]
    constructor
    · intro h
      cases h
      exact ⟨fun e he => absurd he List.not_mem_nil, rfl⟩
    · rintro ⟨-, rfl⟩
      rfl
  | @cons row e rows entries he hentries ih =>
    have hrest := ih (fun row' hrow' => hrows row' (List.mem_cons_of_mem _ hrow'))
    have hrow := readRow_rowOf htable (hrows row List.mem_cons_self) he m
    obtain ⟨leading, trailing, hcost⟩ := he.2
    rw [hcost] at hrow
    rw [List.map_cons, List.foldlM_cons, hrow, List.forall_mem_cons]
    by_cases hlt : e.2.natAbs < 2 ^ 31 - 1
    · rw [getInt32_of_lt leading trailing hlt]
      have hfirst := hrest (m.set e.1 (BitVec.ofInt 32 e.2))
      constructor
      · intro h
        obtain ⟨hall, heq⟩ := hfirst.mp h
        exact ⟨⟨hlt, hall⟩, heq⟩
      · rintro ⟨⟨-, hall⟩, heq⟩
        exact hfirst.mpr ⟨hall, heq⟩
    · rw [getInt32_of_not_lt leading trailing hlt]
      constructor
      · intro h
        cases h
      · rintro ⟨⟨h, -⟩, -⟩
        exact absurd h hlt

/-! ## The file -/

/-- The delimiter is guessed, and the file parsed at once. -/
theorem CostTable.create (htable : CostTable header lines) (pageSize : Nat) (filename : Text) :
    FileReader.create pageSize filename (some (fileText ',' (header :: lines))) =
      .ok
        { delimiter := ','
          reader := (tableReader header.fields (joined [] (lines.map Line.fields)).1).append
            (joined [] (lines.map Line.fields)).2
          infile := none } := by
  have hparse := CSVReader.parse_fileText (by decide) htable.columns.1 htable.columns.2
    htable.wellFormed htable.terminated htable.firstName
  have hnul := htable.plain '\x00' (by decide)
  have hsize : (rowOf header.fields).toVector.length = header.fields.length := by
    rw [CSVRow.toVector, List.length_map, List.length_range]
    exact CSVReader.size_rowOf (by have := htable.columns.1; omega) htable.columns.2
  have hguess : guessDelim (fileText ',' (header :: lines)) possibleDelimiters = (',', 0) := by
    refine guessDelim_eq ?_ ?_ ?_ ?_
    · rw [hparse]
      have := htable.columns.1
      show 1 ≤ (rowOf header.fields).toVector.length
      omega
    · rw [hparse]
      show (0 : Int) ≤ (joined [] (lines.map Line.fields)).1.length + 1
      omega
    · rw [hparse]
      rfl
    · intro d hd hcomma
      refine htable.plain d ?_
      simp only [possibleDelimiters, List.mem_cons] at hd ⊢
      tauto
  rw [create_eq pageSize filename htable.small hnul hguess, hparse]

/-- A file with a row is read row by row. -/
theorem ofFile_eq (htable : CostTable header lines) (pageSize : Nat) (filename : Text) :
    ofFile pageSize filename (some (fileText ',' (header :: lines))) =
      if (joined [] (lines.map Line.fields)).1 = [] then .error .noRow
      else
        ((joined [] (lines.map Line.fields)).1.map rowOf).foldlM (readRow header.fields) ⟨∅⟩ := by
  have hnames : (rowOf header.fields).toVector = header.fields :=
    (toVector_rowOf_iff (by have := htable.columns.1; omega) htable.columns.2
      (htable.short _ List.mem_cons_self)).mpr (htable.leads _ List.mem_cons_self)
  have hrecords : ((tableReader header.fields (joined [] (lines.map Line.fields)).1).append
      (joined [] (lines.map Line.fields)).2).records =
        (joined [] (lines.map Line.fields)).1.map rowOf := rfl
  have hcolNames : ((tableReader header.fields (joined [] (lines.map Line.fields)).1).append
      (joined [] (lines.map Line.fields)).2).colNames = header.fields := hnames
  rw [ofFile, htable.create pageSize filename]
  show FileReader.forRows readRow (FileReader.rounds (fileText ',' (header :: lines))) _ _ = _
  rw [FileReader.rounds, forRows_closed _ _ rfl]
  dsimp only
  rw [hrecords, hcolNames]
  simp only [List.map_eq_nil_iff]

/-- A table with a row whose costs fit. -/
theorem ofFile_of_lt (htable : CostTable header lines) {entries : List (Text × Int)}
    (hentries : List.Forall₂ (Entry header.fields) (joined [] (lines.map Line.fields)).1 entries)
    (hrows : entries ≠ []) (hcosts : ∀ e ∈ entries, e.2.natAbs < 2 ^ 31 - 1) (pageSize : Nat)
    (filename : Text) :
    ofFile pageSize filename (some (fileText ',' (header :: lines))) =
      .ok (ofRows (entries.map fun e => (e.1, BitVec.ofInt 32 e.2))) := by
  have hne : (joined [] (lines.map Line.fields)).1 ≠ [] := by
    intro h
    rw [h, List.forall₂_nil_left_iff] at hentries
    exact hrows hentries
  rw [ofFile_eq htable pageSize filename, if_neg hne]
  exact (foldlM_readRow_iff htable htable.listed hentries ⟨∅⟩ _).mpr ⟨hcosts, rfl⟩

/-- **A cost model is read from a file** exactly when there is a row and every cost is less than the
largest `int` in absolute value. It has the entries of the table. -/
theorem ofFile_eq_ok_iff (htable : CostTable header lines) {entries : List (Text × Int)}
    (hentries : List.Forall₂ (Entry header.fields) (joined [] (lines.map Line.fields)).1 entries)
    {pageSize : Nat} {filename : Text} {m : AssemblyCostModel} :
    ofFile pageSize filename (some (fileText ',' (header :: lines))) = .ok m ↔
      entries ≠ [] ∧ (∀ e ∈ entries, e.2.natAbs < 2 ^ 31 - 1) ∧
        m = ofRows (entries.map fun e => (e.1, BitVec.ofInt 32 e.2)) := by
  constructor
  · intro h
    rw [ofFile_eq htable pageSize filename] at h
    split_ifs at h with hempty
    obtain ⟨hcosts, hm⟩ := (foldlM_readRow_iff htable htable.listed hentries ⟨∅⟩ m).mp h
    refine ⟨?_, hcosts, hm⟩
    rintro rfl
    exact hempty (List.forall₂_nil_right_iff.mp hentries)
  · rintro ⟨hrows, hcosts, rfl⟩
    exact ofFile_of_lt htable hentries hrows hcosts pageSize filename

def costHeader : Line := ⟨["Opcode".toList, "Cost".toList], "\n".toList⟩

/-- Blanks around a cost, and no line end behind the last line. -/
def costLines : List Line := [
  ⟨["local.get".toList, "135".toList], "\n".toList⟩,
  ⟨["i32.add".toList, " 45 ".toList], "\n".toList⟩,
  ⟨["return".toList, "90".toList], []⟩]

def costEntries : List (Text × Int) :=
  [("local.get".toList, 135), ("i32.add".toList, 45), ("return".toList, 90)]

theorem costTable_costLines : CostTable costHeader costLines where
  columns := by decide
  wellFormed := by decide
  terminated := by decide
  firstName := by decide
  names := by decide
  opcode := by decide
  cost := by decide
  leads := by decide
  short := by decide
  small := by decide
  plain := by
    simp only [List.forall_mem_cons]
    exact ⟨by decide, by decide, by decide, by decide, by decide, List.forall_mem_nil _⟩

theorem entry_costLines : List.Forall₂ (Entry costHeader.fields)
    (joined [] (costLines.map Line.fields)).1 costEntries :=
  .cons ⟨by decide, 0, 0, by decide⟩ (.cons ⟨by decide, 1, 1, by decide⟩
    (.cons ⟨by decide, 0, 0, by decide⟩ .nil))

theorem ofFile_eq_ok_iff_costLines :
    ofFile 4096 "costModel.csv".toList (some (fileText ',' (costHeader :: costLines))) =
        .ok (ofRows [("local.get".toList, 135), ("i32.add".toList, 45), ("return".toList, 90)]) ↔
      costEntries ≠ [] ∧ (∀ e ∈ costEntries, e.2.natAbs < 2 ^ 31 - 1) ∧
        ofRows [("local.get".toList, 135), ("i32.add".toList, 45), ("return".toList, 90)] =
          ofRows (costEntries.map fun e => (e.1, BitVec.ofInt 32 e.2)) :=
  ofFile_eq_ok_iff costTable_costLines entry_costLines

end Gpscat.AssemblyCostModel
