import Gpscat.Proofs.CostProofs
import Gpscat.CoFloCo.Proofs.OutputProofs
import Gpscat.CoFloCo.Proofs.BoundRemovalProofs

/-!
# What `main` prints is a bound

If CoFloCo bounds the calls of `tick`, then the text that `main` prints is that of a bound on the
cost of the program.
-/

namespace Gpscat.Cost

open Cpp LLVM CoFloCoWrapper Gpscat.Bound

/-! ## The text -/

theorem rewrite_natFree {flags : Flags} (e : Exp)
    (hflags : flags.removeNat = true ∨ flags.replaceNat = true) : (flags.rewrite e).layout.NatFree := by
  unfold Flags.rewrite
  by_cases hreplace : flags.replaceNat = true
  · rw [if_pos hreplace, Exp.layout_natToMax]
    exact Exp.natFree_natToMax _
  · have hremove : flags.removeNat = true := hflags.resolve_right hreplace
    rw [if_neg hreplace, if_pos hremove, Exp.layout_natToParen]
    exact Exp.natFree_natToParen _

/-- The value stays, unless `-remove-nat` has dropped a `nat` of a negative value. -/
theorem eval_rewrite {flags : Flags} {v : Ident → ℤ} {e : Exp}
    (hnats : flags.removeNat = true → e.NatsNonneg v) : (flags.rewrite e).eval v = e.eval v := by
  have hremoved : (if flags.removeNat then e.natToParen else e).eval v = e.eval v := by
    split_ifs with hremove
    · exact Exp.eval_natToParen (hnats hremove)
    · rfl
  unfold Flags.rewrite
  by_cases hreplace : flags.replaceNat = true
  · rw [if_pos hreplace, Exp.eval_natToMax, hremoved]
  · rw [if_neg hreplace, hremoved]

/-- The options act on the text of a bound as they act on the bound. -/
theorem rewriteBound_print (env : Environment) {flags : Flags}
    (hformat : flags.symengineFormat = false) (e : Exp) :
    rewriteBound env flags e.print = .ok (flags.rewrite e).print := by
  have hremove : orThrow (removeNat e.print) = .ok e.natToParen.print := by
    rw [removeNat_print, orThrow]
  have hreplace : ∀ x : Exp, orAbort (replaceNatWithMax x.print) = .ok x.natToMax.print := by
    intro x
    rw [replaceNatWithMax_natToMax, orAbort]
  unfold rewriteBound Flags.rewrite
  simp only [hformat, hremove]
  cases flags.removeNat with
  | true =>
    cases flags.replaceNat with
    | true =>
      show (orAbort (replaceNatWithMax e.natToParen.print)).bind _ = _
      rw [hreplace]
      rfl
    | false => rfl
  | false =>
    cases flags.replaceNat with
    | true =>
      show (orAbort (replaceNatWithMax e.print)).bind _ = _
      rw [hreplace]
      rfl
    | false => rfl

theorem readCRSAndSolveUpperBound_report {env : Environment} {cofloco : Text → Text}
    (hcofloco : env.cofloco = some cofloco) {crs : Text} {report : Report}
    (hreport : cofloco crs = report.text) :
    readCRSAndSolveUpperBound env crs = .ok report.bound := by
  have hparse : parseCoFloCoOutput report.text = .ok report.bound := by
    rw [Report.text, parse_unlines _ report.leads_lines report.leads_other]
    exact report.parse_costLine report.trail
  rw [readCRSAndSolveUpperBound, hcofloco]
  show orThrow (parseCoFloCoOutput (cofloco crs)) = _
  rw [hreport, hparse, orThrow]

/-- `main` once llvm2kittel has been called. -/
theorem main_of_annotate {env : Environment} {flags : Flags} {costModel : AssemblyCostModel}
    {module : Module} {inv : Option Invocation}
    (h : annotate env flags.toOptions costModel module = .ok inv) :
    main env flags costModel (some module) =
      (readCRSAndSolveUpperBound env (extractCostRelationSystem env inv)).bind
        (rewriteBound env flags) := by
  show (annotate env flags.toOptions costModel module).bind (fun inv =>
    (readCRSAndSolveUpperBound env (extractCostRelationSystem env inv)).bind
      (rewriteBound env flags)) = _
  rw [h]
  rfl

/-- `main` prints what the options make of the bound that is reported. -/
theorem main_report {env : Environment} {flags : Flags} {costModel : AssemblyCostModel}
    {module : Module} {inv : Invocation}
    (hinv : annotate env flags.toOptions costModel module = .ok (some inv))
    {cofloco : Text → Text} (hcofloco : env.cofloco = some cofloco) {report : Report}
    (hreport : cofloco (extractCostRelationSystem env (some inv)) = report.text)
    {e : Exp} (hbound : report.bound = e.print) (hformat : flags.symengineFormat = false) :
    main env flags costModel (some module) = .ok (flags.rewrite e).print := by
  rw [main_of_annotate hinv, readCRSAndSolveUpperBound_report hcofloco hreport, hbound]
  exact rewriteBound_print env hformat e

/-! ## The bound -/

/-- A bound on the calls of `tick` is one on the cost of the program, whatever the options make of
it. -/
theorem charge_le_rewrite (env : Environment) (flags : Flags) (costModel : AssemblyCostModel)
    (module : Module) {llc : Module → List Text} (hllc : env.llc = some llc)
    (hclosed : module.Closed) (hsize : IRLocator.instructionCount module < 2 ^ 32)
    (hdec : LocsDecimal (llc (env.located module)))
    (hfit : ∀ x ∈ (env.located module).blockPtrs, MachineInt.PartialSumsFit
      (blockCharges costModel (occurrences costModel (llc (env.located module))) x.2))
    (hnames : (env.located module).symbols.OneName) {f : FunctionPtr}
    (hf : module.getFunction flags.functionName = some f) (hname : flags.functionName ≠ "tick")
    {D : Type} {I : Interp D (env.located module).functions.length} (hI : I.IgnoresDebugInfo)
    {params : D → Ident → Int} {e : Exp} {inv : Invocation}
    (hinv : annotate env flags.toOptions costModel module = .ok (some inv))
    (hsound : ∀ tick f', inv.bitcode.getFunction "tick" = some tick →
      inv.bitcode.getFunction flags.functionName = some f' →
      BoundsCounter inv.bitcode I tick f' params e)
    {d : D} (hnats : flags.removeNat = true → e.NatsNonneg (params d))
    {r : List (Option Label × Config D)} {s : Config D}
    (hr : Simulation.Run (MarkedStep module I none) (module.start f d) r s)
    (hend : module.atDbgInfo s = false) :
    ∃ q, (flags.rewrite e).layout.eval (params d) = some q ∧
      (module.chargeAlong (attributedCost costModel (llc (env.located module))
        (env.located module)) (module.start f d) r : ℚ) ≤ q := by
  obtain ⟨costs, hM', hcharge⟩ :=
    annotated_of_ok env flags.toOptions costModel module hllc hsize hdec hfit hinv
  obtain ⟨r', s', hr', -, hcount⟩ :=
    (countsCost_of_cost2tick env module hclosed hM' hcharge).followed D I hI f d r s hr hend
  obtain ⟨q, hq, hle⟩ := hsound _ f (getFunction_cost2tick_tick hM')
    (getFunction_annotated env module hnames hM' hname hf) d r' s' hr'
  refine ⟨q, ?_, ?_⟩
  · rw [Exp.eval_layout, eval_rewrite hnats, hq]
  · rw [← hcount]
    exact hle

/-- **What `main` prints is a bound.** When CoFloCo reports a bound on the calls of `tick` for the
function that it is asked about, `main` prints the text of a bound with the same values, which has no
`nat` left once one of the options has been given. No run of the chosen function of the program
executes blocks that cost more. With `-remove-nat` this is said of the parameters for which no argument
of a `nat` is negative. -/
theorem main_bounds_cost (env : Environment) (flags : Flags) (costModel : AssemblyCostModel)
    (module : Module) {llc : Module → List Text} {path : String} {cofloco : Text → Text}
    (hllc : env.llc = some llc) (hpath : env.llvm2kittelPath = some path)
    (hcofloco : env.cofloco = some cofloco)
    (hclosed : module.Closed) (hnew : IRLocator.debugifyOperands module = [])
    (htick : ∀ i, module.symbols.lookup "tick" ≠ some (.global i))
    (hsize : IRLocator.instructionCount module < 2 ^ 32)
    (hdec : LocsDecimal (llc (env.located module)))
    (hfit : ∀ x ∈ (env.located module).blockPtrs, MachineInt.PartialSumsFit
      (blockCharges costModel (occurrences costModel (llc (env.located module))) x.2))
    (hnames : (env.located module).symbols.OneName) (f : FunctionPtr)
    (hf : module.getFunction flags.functionName = some f) (hname : flags.functionName ≠ "tick")
    {D : Type} (I : Interp D (env.located module).functions.length) (hI : I.IgnoresDebugInfo)
    (params : D → Ident → Int) (report : Report) (e : Exp) (hbound : report.bound = e.print)
    (hreport : ∀ inv, annotate env flags.toOptions costModel module = .ok (some inv) →
      cofloco (extractCostRelationSystem env (some inv)) = report.text ∧
        ∀ tick f', inv.bitcode.getFunction "tick" = some tick →
          inv.bitcode.getFunction flags.functionName = some f' →
          BoundsCounter inv.bitcode I tick f' params e)
    (hformat : flags.symengineFormat = false) :
    ∃ text e', main env flags costModel (some module) = .ok text ∧ parse text = some e' ∧
      (flags.removeNat = true ∨ flags.replaceNat = true → e'.NatFree) ∧
      (∀ v, (flags.removeNat = true → e.NatsNonneg v) → e'.eval v = e.eval v) ∧
      ∀ (d : D) (r : List (Option Label × Config D)) (s : Config D),
        (flags.removeNat = true → e.NatsNonneg (params d)) →
        Simulation.Run (MarkedStep module I none) (module.start f d) r s →
        module.atDbgInfo s = false →
        ∃ q, e'.eval (params d) = some q ∧
          (module.chargeAlong (attributedCost costModel (llc (env.located module))
            (env.located module)) (module.start f d) r : ℚ) ≤ q := by
  obtain ⟨inv, hinv⟩ :=
    exists_annotate env flags.toOptions costModel module hnew hllc hdec htick hpath
  obtain ⟨hreads, hsound⟩ := hreport inv hinv
  refine ⟨(flags.rewrite e).print, (flags.rewrite e).layout, ?_, parse_print _,
    rewrite_natFree e, fun v hnats => ?_, fun d r s hnats hr hend => ?_⟩
  · exact main_report hinv hcofloco hreads hbound hformat
  · rw [Exp.eval_layout, eval_rewrite hnats]
  · exact charge_le_rewrite env flags costModel module hllc hclosed hsize hdec hfit hnames hf hname
      hI hinv hsound hnats hr hend

/-! ## The sample -/

/-- Where a run of the sample can be, and what it has been charged by then. -/
def sampleCharged {D : Type} (s : Config D) : Int :=
  match s.ctrl with
  | .code _ k => if k < 2 then 0 else 135
  | _ => 135

structure InSample {D : Type} (s : Config D) : Prop where
  conts : s.conts = []
  ctrl : (∃ k, s.ctrl = .code ⟨0, 0⟩ k) ∨ s.ctrl = .returning

theorem chargeAlong_sampleProgram {D : Type} {n : Nat} {I : Interp D n}
    {charge : BasicBlockPtr → Int} (hcharge : charge ⟨0, 0⟩ = 135) {d : D}
    {r : List (Option Label × Config D)} {s : Config D}
    (hr : Simulation.Run (MarkedStep sampleProgram I none) (sampleProgram.start 0 d) r s) :
    sampleProgram.chargeAlong charge (sampleProgram.start 0 d) r ≤ 135 := by
  have hblock : sampleProgram.blockAt ⟨0, 0⟩ = some sampleBlock := rfl
  have hnocall : ∀ inst ∈ sampleBlock.body, inst.op.isCall = false := by decide
  have hsum := Simulation.Run.sum_eq (fun _ => 0) (fun x => sampleProgram.chargeAt charge x.2)
    sampleCharged InSample ?_ ⟨rfl, .inl ⟨0, rfl⟩⟩ hr
  · have hstart : sampleCharged (sampleProgram.start 0 d) = 0 := rfl
    have hend : sampleCharged s ≤ 135 := by
      unfold sampleCharged
      split
      · split_ifs <;> decide
      · decide
    have hzero : sampleProgram.chargeAt charge (sampleProgram.start 0 d) = 0 := rfl
    have hnone : (r.map fun _ => (0 : Int)).sum = 0 := by simp
    rw [Module.chargeAlong, hzero]
    omega
  · rintro ⟨ctrl, conts, d⟩ l t ⟨rfl, hctrl⟩ ⟨l', hstep, -⟩
    rcases hctrl with ⟨k, rfl⟩ | rfl
    · cases hstep with
      | exec hBB hk _ _ =>
        obtain rfl := Option.some.inj (hblock.symm.trans hBB)
        have hlt : k < 2 := (List.getElem?_eq_some_iff.mp hk).1
        refine ⟨⟨rfl, .inl ⟨k + 1, rfl⟩⟩, ?_⟩
        rw [chargeAt_code charge hblock, hcharge]
        have hlen : sampleBlock.body.length = 2 := rfl
        simp only [sampleCharged, hlen, if_pos hlt]
        split_ifs <;> omega
      | tick hBB hk hop _ =>
        obtain rfl := Option.some.inj (hblock.symm.trans hBB)
        have hcall := hnocall _ (List.mem_of_getElem? hk)
        rw [hop] at hcall
        cases hcall
      | call hBB hk hop _ _ =>
        obtain rfl := Option.some.inj (hblock.symm.trans hBB)
        have hcall := hnocall _ (List.mem_of_getElem? hk)
        rw [hop] at hcall
        cases hcall
      | branch hBB _ hs _ =>
        obtain rfl := Option.some.inj (hblock.symm.trans hBB)
        exact absurd hs List.not_mem_nil
      | invoke hBB _ hop _ _ =>
        obtain rfl := Option.some.inj (hblock.symm.trans hBB)
        cases hop
      | ret hBB hk _ _ =>
        obtain rfl := Option.some.inj (hblock.symm.trans hBB)
        obtain rfl : k = 2 := hk
        exact ⟨⟨rfl, .inr rfl⟩, rfl⟩
      | unwind hBB _ hop _ =>
        obtain rfl := Option.some.inj (hblock.symm.trans hBB)
        cases hop
    · cases hstep

theorem attributedCost_sampleProgram (p : BasicBlockPtr) :
    attributedCost sampleCosts sampleAsm (sampleEnvironment.located sampleProgram) p =
      if p = ⟨0, 0⟩ then 135 else 0 := by
  have hfirst : attributedCost sampleCosts sampleAsm (sampleEnvironment.located sampleProgram)
      ⟨0, 0⟩ = 135 := by decide +kernel
  by_cases hp : p = ⟨0, 0⟩
  · rw [if_pos hp, hp, hfirst]
  · have hblocks : (sampleEnvironment.located sampleProgram).blockPtrs.map Prod.fst = [⟨0, 0⟩] := by
      decide +kernel
    have hnone : (sampleEnvironment.located sampleProgram).blockAt p = none := by
      by_contra hsome
      obtain ⟨BB, hBB⟩ := Option.ne_none_iff_exists'.mp hsome
      have hmem := List.mem_map_of_mem (f := Prod.fst)
        ((sampleEnvironment.located sampleProgram).mem_blockPtrs.mpr hBB)
      rw [hblocks, List.mem_singleton] at hmem
      exact hp hmem
    rw [if_neg hp, attributedCost, hnone]

/-- The sample report bounds the calls of `tick` in the sample. -/
theorem boundsCounter_sampleProgram {flags : Flags} (hname : flags.functionName = "f")
    {inv : Invocation}
    (h : annotate sampleEnvironment flags.toOptions sampleCosts sampleProgram = .ok (some inv))
    {tick f : FunctionPtr} (htick : inv.bitcode.getFunction "tick" = some tick)
    (hf : inv.bitcode.getFunction flags.functionName = some f) :
    BoundsCounter inv.bitcode
      (IRLocator.counting (sampleEnvironment.located sampleProgram).functions.length) tick f
      (fun _ _ => 0) sampleBound := by
  obtain ⟨costs, hM', hcharge⟩ := annotated_of_ok sampleEnvironment flags.toOptions
    sampleCosts sampleProgram rfl (by decide) (by decide +kernel) sampleEnvironment_fits h
  obtain rfl := Option.some.inj ((getFunction_cost2tick_tick hM').symm.trans htick)
  have hentry : inv.bitcode.getFunction "f" = some 0 := getFunction_annotated sampleEnvironment sampleProgram
    (by decide +kernel) hM' (by decide) (by decide)
  rw [← hname] at hentry
  obtain rfl := Option.some.inj (hentry.symm.trans hf)
  intro d r s hr
  refine ⟨135, rfl, ?_⟩
  obtain ⟨r', s', hr', -, -, hcount⟩ := (countsCost_of_cost2tick sampleEnvironment sampleProgram
    (by decide) hM' hcharge).erased _ _ (IRLocator.counting_ignoresDebugInfo _) 0 d r s hr
  have hle := chargeAlong_sampleProgram (attributedCost_sampleProgram ⟨0, 0⟩) hr'
  have hdue : 0 ≤ (sampleEnvironment.located sampleProgram).chargeAt
      (attributedCost sampleCosts sampleAsm (sampleEnvironment.located sampleProgram)) s := by
    unfold Module.chargeAt
    split
    · rw [attributedCost_sampleProgram]
      split_ifs <;> decide
    · exact le_rfl
  have hcounter : tickCounter r ≤ 135 := by omega
  exact_mod_cast hcounter

theorem main_bounds_cost_sampleProgram :
    ∃ text e', main sampleEnvironment { functionName := "f", replaceNat := true } sampleCosts
        (some sampleProgram) = .ok text ∧ parse text = some e' ∧
      (false = true ∨ true = true → e'.NatFree) ∧
      (∀ v, (false = true → sampleBound.NatsNonneg v) → e'.eval v = sampleBound.eval v) ∧
      ∀ (d : Nat) (r : List (Option Label × Config Nat)) (s : Config Nat),
        (false = true → sampleBound.NatsNonneg fun _ => 0) →
        Simulation.Run (MarkedStep sampleProgram
          (IRLocator.counting (sampleEnvironment.located sampleProgram).functions.length) none)
          (sampleProgram.start 0 d) r s →
        sampleProgram.atDbgInfo s = false →
        ∃ q, e'.eval (fun _ => 0) = some q ∧
          (sampleProgram.chargeAlong (attributedCost sampleCosts sampleAsm
            (sampleEnvironment.located sampleProgram)) (sampleProgram.start 0 d) r : ℚ) ≤ q :=
  main_bounds_cost sampleEnvironment { functionName := "f", replaceNat := true } sampleCosts
    sampleProgram rfl rfl rfl (by decide) (by decide) (fun i h => nomatch h) (by decide)
    (by decide +kernel) sampleEnvironment_fits (by decide +kernel) 0 (by decide) (by decide) _
    (IRLocator.counting_ignoresDebugInfo _) (fun _ _ => 0) sampleCostReport sampleBound rfl
    (fun _ hinv => ⟨rfl, fun _ _ htick hf => boundsCounter_sampleProgram rfl hinv htick hf⟩) rfl

end Gpscat.Cost
