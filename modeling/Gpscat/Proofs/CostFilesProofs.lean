import Gpscat.CostFiles
import Gpscat.Proofs.CostBoundProofs
import Gpscat.Proofs.CostModelFileProofs

/-!
# From the cost model file to the bound

The cost model that is read has the costs of the table, and no block cost overflows as long as the
largest cost times the length of the assembly is a 32-bit integer. So the bound that is printed is one
on the costs of the table.
-/

namespace Gpscat

open Cpp LLVM MappingExtractor

/-! ## The costs of the table -/

namespace AssemblyCostModel

theorem lookup_ofRows (rows : List (Text × CostTy)) (name : Text) :
    (ofRows rows).costModel.lookup name = rows.reverse.lookup name := by
  induction rows using List.reverseRecOn with
  | nil => rfl
  | append_singleton rows row ih =>
    have hset : ofRows (rows ++ [row]) = (ofRows rows).set row.1 row.2 := by
      rw [ofRows, List.foldl_append]
      rfl
    rw [hset, set, List.reverse_append, List.reverse_singleton, List.singleton_append]
    by_cases hname : name = row.1
    · subst hname
      rw [AList.lookup_insert, List.lookup_cons_self]
    · have hne : (name == row.1) = false := by simpa using hname
      rw [AList.lookup_insert_ne hname, ih, List.lookup_cons, hne]

theorem lookup_map_snd {α β γ : Type} [BEq α] (l : List (α × β)) (f : β → γ) (a : α) :
    (l.map fun e => (e.1, f e.2)).lookup a = (l.lookup a).map f := by
  induction l with
  | nil => rfl
  | cons e l ih =>
    rw [List.map_cons, List.lookup_cons, List.lookup_cons, ih]
    cases a == e.1 <;> rfl

theorem mem_of_lookup {α β : Type} [BEq α] [LawfulBEq α] {l : List (α × β)} {a : α} {b : β}
    (h : l.lookup a = some b) : (a, b) ∈ l := by
  induction l with
  | nil => cases h
  | cons e l ih =>
    rw [List.lookup_cons] at h
    cases ha : a == e.1 with
    | true =>
      rw [ha] at h
      obtain rfl := Option.some.inj h
      rw [eq_of_beq ha]
      exact List.mem_cons_self
    | false =>
      rw [ha] at h
      exact List.mem_cons_of_mem _ (ih h)

theorem lookup_ofEntries (entries : List (Text × Int)) (name : Text) :
    (ofEntries entries).costModel.lookup name =
      (entries.reverse.lookup name).map (BitVec.ofInt 32) := by
  rw [ofEntries, lookup_ofRows, ← List.map_reverse, lookup_map_snd]

variable {entries : List (Text × Int)}

/-- The costs that are read are those of the table. -/
theorem costOf_ofEntries (hfits : ∀ e ∈ entries, MachineInt.Fits e.2) (name : Text) :
    ((ofEntries entries).costOf name).toInt = Cost.listedCost entries name := by
  rw [costOf, UnorderedMap.findD, lookup_ofEntries, Cost.listedCost]
  cases hname : entries.reverse.lookup name with
  | none => rfl
  | some cost =>
    have hmem := List.mem_reverse.mp (mem_of_lookup hname)
    rw [Option.map_some, Option.getD_some, Option.getD_some, BitVec.toInt_ofInt]
    exact MachineInt.bmod_of_fits (hfits _ hmem)

end AssemblyCostModel

namespace Cost

open AssemblyCostModel CoFloCoWrapper Gpscat.Bound

variable {entries : List (Text × Int)}

theorem cost_opcodeOf (hfits : ∀ e ∈ entries, MachineInt.Fits e.2) (line : Text) :
    ((opcodeOf (ofEntries entries) line).map fun opcode =>
      ((ofEntries entries).costOf opcode).toInt).getD 0 = lineCost entries line := by
  unfold opcodeOf lineCost
  cases locLine line with
  | some _ => rfl
  | none =>
    cases (words line).head? with
    | none => rfl
    | some word =>
      dsimp only
      by_cases hknown : (ofEntries entries).hasInst word = true
      · rw [Option.filter_some_pos hknown]
        exact costOf_ofEntries hfits word
      · have hnone : (ofEntries entries).costModel.lookup word = none := by
          simpa [hasInst] using hknown
        rw [Option.filter_some_neg (Bool.eq_false_iff.mpr hknown)]
        rw [lookup_ofEntries, Option.map_eq_none_iff] at hnone
        simp [listedCost, hnone]

/-- What is attributed to a block is the cost of its lines of the assembly. -/
theorem attributedCost_ofEntries (hfits : ∀ e ∈ entries, MachineInt.Fits e.2)
    (inputFile : List Text) (located : Module) :
    attributedCost (ofEntries entries) inputFile located = tableCharge entries inputFile located := by
  funext p
  unfold attributedCost tableCharge
  cases located.blockAt p with
  | none => rfl
  | some BB =>
    dsimp only
    rw [totalCost, ListSum.sum_map_filter, occurrences, ListSum.sum_map_filterMap]
    congr 1
    refine List.map_congr_left fun i hi => ?_
    have hlt : i < inputFile.length := List.mem_range.mp hi
    have hline := cost_opcodeOf hfits inputFile[i]
    rw [List.getElem?_eq_getElem hlt, List.getD, List.getElem?_eq_getElem hlt, Option.bind_some,
      Option.getD_some, ← hline, Option.map_map]
    cases opcodeOf (ofEntries entries) inputFile[i] with
    | none => simp
    | some opcode => simp [Occurrence.cost]

/-! ## The range of the costs -/

/-- An occurrence is charged to a block once at most. -/
theorem length_blockCharges_le (costModel : AssemblyCostModel) (occs : List Occurrence)
    {BB : BasicBlock} (hnd : (blockLines BB).Nodup) :
    (blockCharges costModel occs BB).length ≤ occs.length := by
  have hcount : ∀ line, ((occs.filter (·.governing = line)).map (Occurrence.cost costModel)).length =
      (occs.map fun o => if line = o.governing then 1 else 0).sum := by
    intro line
    have hones := ListSum.sum_map_filter occs (fun o => decide (o.governing = line))
      (fun _ => (1 : Nat))
    rw [List.map_const', List.sum_replicate_nat, Nat.mul_one] at hones
    rw [List.length_map, hones]
    simp only [decide_eq_true_eq, @eq_comm _ _ line]
  have hsplit : (blockCharges costModel occs BB).length =
      (occs.map fun o => if o.governing ∈ blockLines BB then 1 else 0).sum := by
    rw [blockCharges, List.length_flatMap]
    simp only [hcount]
    rw [ListSum.sum_comm]
    congr 1
    exact List.map_congr_left fun o _ => ListSum.sum_map_ite_mem _ hnd o.governing 1
  rw [hsplit]
  refine (List.sum_le_card_nsmul _ 1 fun n hn => ?_).trans (by simp)
  obtain ⟨o, -, rfl⟩ := List.mem_map.mp hn
  split_ifs <;> omega

theorem length_occurrences_le (costModel : AssemblyCostModel) (inputFile : List Text) :
    (occurrences costModel inputFile).length ≤ inputFile.length :=
  (List.length_filterMap_le _ _).trans_eq List.length_range

/-- Every cost that is charged is one of the table. -/
theorem natAbs_charge_le {bound : Nat} (hbound : ∀ e ∈ entries, e.2.natAbs ≤ bound)
    (hfits : ∀ e ∈ entries, MachineInt.Fits e.2) {occs : List Occurrence} {BB : BasicBlock} :
    ∀ cost ∈ blockCharges (ofEntries entries) occs BB, cost.toInt.natAbs ≤ bound := by
  intro cost hcost
  obtain ⟨line, -, hcost⟩ := List.mem_flatMap.mp hcost
  obtain ⟨o, -, rfl⟩ := List.mem_map.mp hcost
  rw [Occurrence.cost, costOf_ofEntries hfits, listedCost]
  cases hname : entries.reverse.lookup o.opcode with
  | none => exact Nat.zero_le bound
  | some c => exact hbound _ (List.mem_reverse.mp (mem_of_lookup hname))

/-- No sum overflows when the largest cost times the length of the assembly is small. -/
theorem partialSumsFit_blockCharges {bound : Nat} (hbound : ∀ e ∈ entries, e.2.natAbs ≤ bound)
    (hfits : ∀ e ∈ entries, MachineInt.Fits e.2) {inputFile : List Text}
    (hlen : inputFile.length * bound < 2 ^ 31) {M : Module} (hM : DistinctLines M) :
    ∀ x ∈ M.blockPtrs, MachineInt.PartialSumsFit
      (blockCharges (ofEntries entries) (occurrences (ofEntries entries) inputFile) x.2) := by
  intro x hx
  have hcount := (length_blockCharges_le (ofEntries entries)
    (occurrences (ofEntries entries) inputFile) (hM.nodup_blockLines hx)).trans
      (length_occurrences_le _ inputFile)
  refine MachineInt.partialSumsFit_of_le (natAbs_charge_le hbound hfits) ?_
  exact lt_of_le_of_lt (Nat.mul_le_mul_right bound hcount) hlen

/-! ## The program -/

theorem mainOfFiles_eq {header : Csv.Line} {lines : List Csv.Line} (htable : CostTable header lines)
    (hentries : List.Forall₂ (Entry header.fields)
      (Csv.joined [] (lines.map Csv.Line.fields)).1 entries)
    (hrows : entries ≠ []) (hcosts : ∀ e ∈ entries, e.2.natAbs < 2 ^ 31 - 1) (pageSize : Nat)
    (env : Environment) (flags : Flags) (filename : Text) (module : Module) :
    mainOfFiles pageSize env flags filename (some (Csv.fileText ',' (header :: lines))) (some module) =
      (main env flags (ofEntries entries) (some module)).mapError .inr := by
  have hfile := ofFile_of_lt htable hentries hrows hcosts pageSize filename
  rw [mainOfFiles, hfile, ofEntries]

/-- **From the files to the bound.** For a table of costs that are small compared to the length of the
assembly, `main` prints the text of a bound with the values of the one that CoFloCo reports on the
calls of `tick`, and no run of the chosen function of the program executes blocks whose assembly costs
more by the table. With `-remove-nat` this is said of the parameters for which no argument of a `nat`
is negative. -/
theorem mainOfFiles_bounds_cost (pageSize : Nat) (env : Environment) (flags : Flags)
    {header : Csv.Line} {lines : List Csv.Line} (htable : CostTable header lines)
    (hentries : List.Forall₂ (Entry header.fields)
      (Csv.joined [] (lines.map Csv.Line.fields)).1 entries)
    (hrows : entries ≠ []) (largest : Nat) (hlargest : ∀ e ∈ entries, e.2.natAbs ≤ largest)
    (hmax : largest < 2 ^ 31 - 1) (filename : Text) (module : Module) {llc : Module → List Text}
    {path : String} {cofloco : Text → Text} (hllc : env.llc = some llc)
    (hpath : env.llvm2kittelPath = some path) (hcofloco : env.cofloco = some cofloco)
    (hclosed : module.Closed) (hnew : IRLocator.debugifyOperands module = [])
    (htick : ∀ i, module.symbols.lookup "tick" ≠ some (.global i))
    (hsize : IRLocator.instructionCount module < 2 ^ 32)
    (hdec : LocsDecimal (llc (env.located module)))
    (hlen : (llc (env.located module)).length * largest < 2 ^ 31)
    (hnames : (env.located module).symbols.OneName) (f : FunctionPtr)
    (hf : module.getFunction flags.functionName = some f) (hname : flags.functionName ≠ "tick")
    {D : Type} (I : Interp D (env.located module).functions.length) (hI : I.IgnoresDebugInfo)
    (params : D → Ident → Int) (report : Report) (e : Exp) (hbound : report.bound = e.print)
    (hreport : ∀ inv, annotate env flags.toOptions (ofEntries entries) module = .ok (some inv) →
      cofloco (extractCostRelationSystem env (some inv)) = report.text ∧
        ∀ tick f', inv.bitcode.getFunction "tick" = some tick →
          inv.bitcode.getFunction flags.functionName = some f' →
          BoundsCounter inv.bitcode I tick f' params e)
    (hformat : flags.symengineFormat = false) :
    ∃ text e', mainOfFiles pageSize env flags filename
        (some (Csv.fileText ',' (header :: lines))) (some module) = .ok text ∧ parse text = some e' ∧
      (flags.removeNat = true ∨ flags.replaceNat = true → e'.NatFree) ∧
      (∀ v, (flags.removeNat = true → e.NatsNonneg v) → e'.eval v = e.eval v) ∧
      ∀ (d : D) (r : List (Option Label × Config D)) (s : Config D),
        (flags.removeNat = true → e.NatsNonneg (params d)) →
        Simulation.Run (MarkedStep module I none) (module.start f d) r s →
        module.atDbgInfo s = false →
        ∃ q, e'.eval (params d) = some q ∧
          (module.chargeAlong (tableCharge entries (llc (env.located module)) (env.located module))
            (module.start f d) r : ℚ) ≤ q := by
  have hfits : ∀ e ∈ entries, MachineInt.Fits e.2 := by
    intro e he
    have hle := hlargest e he
    constructor <;> omega
  have hfit := partialSumsFit_blockCharges hlargest hfits hlen
    (IRLocator.distinctLines_run env.strip module hsize)
  obtain ⟨inv, hinv⟩ :=
    exists_annotate env flags.toOptions (ofEntries entries) module hnew hllc hdec htick hpath
  obtain ⟨hreads, hsound⟩ := hreport inv hinv
  refine ⟨(flags.rewrite e).print, (flags.rewrite e).layout, ?_, parse_print _,
    rewrite_natFree e, fun v hnats => ?_, fun d r s hnats hr hend => ?_⟩
  · rw [mainOfFiles_eq htable hentries hrows
      (fun e he => lt_of_le_of_lt (hlargest e he) hmax) pageSize env flags filename module,
      main_report hinv hcofloco hreads hbound hformat]
    rfl
  · rw [Exp.eval_layout, eval_rewrite hnats]
  · rw [← attributedCost_ofEntries hfits]
    exact charge_le_rewrite env flags (ofEntries entries) module hllc hclosed hsize hdec hfit hnames
      hf hname hI hinv hsound hnats hr hend

theorem mainOfFiles_bounds_cost_sampleProgram :
    ∃ text e', mainOfFiles 4096 sampleEnvironment { functionName := "f", replaceNat := true }
        "costModel.csv".toList (some (Csv.fileText ',' (costHeader :: costLines)))
        (some sampleProgram) = .ok text ∧ parse text = some e' ∧
      (false = true ∨ true = true → e'.NatFree) ∧
      (∀ v, (false = true → sampleBound.NatsNonneg v) → e'.eval v = sampleBound.eval v) ∧
      ∀ (d : Nat) (r : List (Option Label × Config Nat)) (s : Config Nat),
        (false = true → sampleBound.NatsNonneg fun _ => 0) →
        Simulation.Run (MarkedStep sampleProgram
          (IRLocator.counting (sampleEnvironment.located sampleProgram).functions.length) none)
          (sampleProgram.start 0 d) r s →
        sampleProgram.atDbgInfo s = false →
        ∃ q, e'.eval (fun _ => 0) = some q ∧
          (sampleProgram.chargeAlong (tableCharge costEntries sampleAsm
            (sampleEnvironment.located sampleProgram)) (sampleProgram.start 0 d) r : ℚ) ≤ q :=
  mainOfFiles_bounds_cost 4096 sampleEnvironment { functionName := "f", replaceNat := true }
    costTable_costLines entry_costLines (by decide) 135 (by decide) (by decide) _
    sampleProgram rfl rfl rfl (by decide) (by decide) (fun i h => nomatch h) (by decide)
    (by decide +kernel) (by decide) (by decide +kernel) 0 (by decide) (by decide) _
    (IRLocator.counting_ignoresDebugInfo _) (fun _ _ => 0) sampleCostReport sampleBound rfl
    (fun _ hinv => ⟨rfl, fun _ _ htick hf => boundsCounter_sampleProgram rfl hinv htick hf⟩) rfl

end Cost

end Gpscat
