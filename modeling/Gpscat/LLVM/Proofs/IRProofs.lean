import Gpscat.LLVM.IR
import Mathlib.Data.List.Nodup

/-!
# Traversals of a module

A traversal meets every block and every instruction exactly once, and a pointer determines what it
points to.
-/

namespace LLVM

/-- A family of lists with the positions as keys has no key twice. -/
theorem nodup_flatMap_zipIdx {α β γ : Type} (l : List α) (f : α → Nat → List β) (key : β → γ)
    (hin : ∀ x i, ((f x i).map key).Nodup)
    (hout : ∀ x y i j, i ≠ j → ∀ a ∈ f x i, ∀ b ∈ f y j, key a ≠ key b) (n : Nat) :
    (((l.zipIdx n).flatMap fun p => f p.1 p.2).map key).Nodup := by
  induction l generalizing n with
  | nil => simp
  | cons x l ih =>
    rw [List.zipIdx_cons, List.flatMap_cons, List.map_append]
    refine List.nodup_append.mpr ⟨hin x n, ih (n + 1), ?_⟩
    intro a ha b hb hab
    obtain ⟨a', ha', rfl⟩ := List.mem_map.mp ha
    obtain ⟨b', hb', rfl⟩ := List.mem_map.mp hb
    obtain ⟨p, hp, hbp⟩ := List.mem_flatMap.mp hb'
    have hle : n + 1 ≤ p.2 := List.le_snd_of_mem_zipIdx hp
    exact hout x p.1 n p.2 (by omega) a' ha' b' hbp hab

/-! ## Blocks -/

theorem BasicBlock.unlocated_unlocated (BB : BasicBlock) :
    BB.unlocated.unlocated = BB.unlocated := by
  unfold BasicBlock.unlocated
  rw [List.map_map]
  rfl

theorem BasicBlock.eraseDbgInfo_eraseDbgInfo (BB : BasicBlock) :
    BB.eraseDbgInfo.eraseDbgInfo = BB.eraseDbgInfo := by
  unfold BasicBlock.eraseDbgInfo
  rw [List.filter_filter]
  simp only [Bool.and_self]

theorem BasicBlock.debugLocs_unlocated {BB : BasicBlock} {loc : Option (BitVec 32)}
    (h : loc ∈ BB.unlocated.debugLocs) : loc = none := by
  rcases List.mem_append.mp h with hbody | hterm
  · obtain ⟨J, hJ, rfl⟩ := List.mem_map.mp hbody
    obtain ⟨I, -, rfl⟩ := List.mem_map.mp hJ
    rfl
  · exact List.mem_singleton.mp hterm

/-! ## Modules -/

namespace Module

variable (M : Module)

theorem mem_blockPtrs {p : BasicBlockPtr} {BB : BasicBlock} :
    (p, BB) ∈ M.blockPtrs ↔ M.blockAt p = some BB := by
  obtain ⟨f, b⟩ := p
  simp only [blockPtrs, blockAt, List.mem_flatMap, List.mem_map, Prod.exists,
    List.mem_zipIdx_iff_getElem?, Prod.mk.injEq, BasicBlockPtr.mk.injEq, Option.bind_eq_some_iff]
  constructor
  · rintro ⟨F, f', hF, BB', b', hBB, ⟨rfl, rfl⟩, rfl⟩
    exact ⟨F, hF, hBB⟩
  · rintro ⟨F, hF, hBB⟩
    exact ⟨F, f, hF, BB, b, hBB, ⟨rfl, rfl⟩, rfl⟩

theorem nodup_blockPtrs : (M.blockPtrs.map Prod.fst).Nodup := by
  refine nodup_flatMap_zipIdx M.functions
    (fun F f => F.blocks.zipIdx.map fun x => ((⟨f, x.2⟩ : BasicBlockPtr), x.1)) Prod.fst ?_ ?_ 0
  · intro F f
    have hpos : (F.blocks.zipIdx.map Prod.snd).Nodup := by
      rw [List.zipIdx_map_snd]; exact List.nodup_range'
    rw [List.map_map]
    have heq : (Prod.fst ∘ fun p : BasicBlock × Nat => ((⟨f, p.2⟩ : BasicBlockPtr), p.1)) =
        (fun b => (⟨f, b⟩ : BasicBlockPtr)) ∘ Prod.snd := rfl
    rw [heq, ← List.map_map]
    exact hpos.map fun a b h => (BasicBlockPtr.mk.inj h).2
  · intro F G f g hfg a ha b hb hab
    obtain ⟨x, -, rfl⟩ := List.mem_map.mp ha
    obtain ⟨y, -, rfl⟩ := List.mem_map.mp hb
    exact hfg (BasicBlockPtr.mk.inj hab).1

theorem mem_instructionPtrs {p : BasicBlockPtr} {BB : BasicBlock} {I : InstructionPtr}
    {loc : Option (BitVec 32)} :
    (I, loc) ∈ instructionPtrs (p, BB) ↔ I.parent = p ∧ BB.debugLocs[I.idx]? = some loc := by
  obtain ⟨q, i⟩ := I
  simp only [instructionPtrs, List.mem_map, Prod.exists, List.mem_zipIdx_iff_getElem?,
    Prod.mk.injEq, InstructionPtr.mk.injEq]
  constructor
  · rintro ⟨loc', i', h, ⟨rfl, rfl⟩, rfl⟩
    exact ⟨rfl, h⟩
  · rintro ⟨rfl, h⟩
    exact ⟨loc, i, h, ⟨rfl, rfl⟩, rfl⟩

theorem parent_of_mem_instructionPtrs {x : BasicBlockPtr × BasicBlock}
    {I : InstructionPtr × Option (BitVec 32)} (h : I ∈ instructionPtrs x) : I.1.parent = x.1 :=
  (mem_instructionPtrs.mp h).1

theorem mem_instructions {I : InstructionPtr} {loc : Option (BitVec 32)} :
    (I, loc) ∈ M.instructions ↔
      ∃ BB, M.blockAt I.parent = some BB ∧ BB.debugLocs[I.idx]? = some loc := by
  simp only [instructions, List.mem_flatMap, Prod.exists, mem_instructionPtrs]
  constructor
  · rintro ⟨p, BB, hmem, rfl, hloc⟩
    exact ⟨BB, M.mem_blockPtrs.mp hmem, hloc⟩
  · rintro ⟨BB, hBB, hloc⟩
    exact ⟨I.parent, BB, M.mem_blockPtrs.mpr hBB, rfl, hloc⟩

/-- A pointer points to one instruction, which has one debug location. -/
theorem instructions_loc_unique {I : InstructionPtr} {loc loc' : Option (BitVec 32)}
    (h : (I, loc) ∈ M.instructions) (h' : (I, loc') ∈ M.instructions) : loc = loc' := by
  obtain ⟨BB, hBB, hloc⟩ := M.mem_instructions.mp h
  obtain ⟨BB', hBB', hloc'⟩ := M.mem_instructions.mp h'
  rw [hBB] at hBB'
  obtain rfl := Option.some.inj hBB'
  rw [hloc] at hloc'
  exact Option.some.inj hloc'

/-! ### The instructions of a block -/

theorem nodup_instructionPtrs (x : BasicBlockPtr × BasicBlock) :
    ((instructionPtrs x).map Prod.fst).Nodup := by
  rw [instructionPtrs, List.map_map]
  have heq : (Prod.fst ∘ fun p : Option (BitVec 32) × Nat => ((⟨x.1, p.2⟩ : InstructionPtr), p.1)) =
      (fun i => (⟨x.1, i⟩ : InstructionPtr)) ∘ Prod.snd := rfl
  have hpos : (x.2.debugLocs.zipIdx.map Prod.snd).Nodup := by
    rw [List.zipIdx_map_snd]
    exact List.nodup_range'
  rw [heq, ← List.map_map]
  exact hpos.map fun i j h => (InstructionPtr.mk.inj h).2

theorem nodup_instructions : (M.instructions.map Prod.fst).Nodup := by
  rw [instructions, List.map_flatMap, List.nodup_flatMap]
  refine ⟨fun x _ => nodup_instructionPtrs x, ?_⟩
  have hblocks := M.nodup_blockPtrs
  rw [List.Nodup, List.pairwise_map] at hblocks
  refine hblocks.imp fun {x y} hxy => ?_
  intro I hI hI'
  obtain ⟨J, hJ, rfl⟩ := List.mem_map.mp hI
  obtain ⟨J', hJ', heq⟩ := List.mem_map.mp hI'
  apply hxy
  rw [← parent_of_mem_instructionPtrs hJ, ← parent_of_mem_instructionPtrs hJ', heq]

/-- An instruction of the module is one of a block exactly when the block is its parent. -/
theorem mem_instructionPtrs_iff_parent {I : InstructionPtr} (hI : I ∈ M.instructions.map Prod.fst)
    {x : BasicBlockPtr × BasicBlock} (hx : x ∈ M.blockPtrs) :
    I ∈ (instructionPtrs x).map Prod.fst ↔ I.parent = x.1 := by
  obtain ⟨⟨I, loc⟩, hmem, rfl⟩ := List.mem_map.mp hI
  constructor
  · intro h
    obtain ⟨J, hJ, hJI⟩ := List.mem_map.mp h
    rw [← hJI]
    exact parent_of_mem_instructionPtrs hJ
  · intro hparent
    obtain ⟨BB, hBB, hloc⟩ := M.mem_instructions.mp hmem
    obtain ⟨p, BB'⟩ := x
    obtain rfl : I.parent = p := hparent
    obtain rfl := Option.some.inj (hBB.symm.trans (M.mem_blockPtrs.mp hx))
    exact List.mem_map.mpr ⟨(I, loc), mem_instructionPtrs.mpr ⟨rfl, hloc⟩, rfl⟩

theorem parent_mem_blockPtrs {I : InstructionPtr} (hI : I ∈ M.instructions.map Prod.fst) :
    I.parent ∈ M.blockPtrs.map Prod.fst := by
  obtain ⟨⟨I, loc⟩, hmem, rfl⟩ := List.mem_map.mp hI
  obtain ⟨BB, hBB, -⟩ := M.mem_instructions.mp hmem
  exact List.mem_map.mpr ⟨(I.parent, BB), M.mem_blockPtrs.mpr hBB, rfl⟩

/-- The terminator is an instruction of the module, and the last one of its block. -/
theorem getTerminator_mem {x : BasicBlockPtr × BasicBlock} (hx : x ∈ M.blockPtrs) :
    getTerminator x ∈ M.instructions.map Prod.fst := by
  have hloc : x.2.debugLocs[x.2.body.length]? = some x.2.term.debugLoc := by
    simp [BasicBlock.debugLocs]
  exact List.mem_map.mpr ⟨(getTerminator x, x.2.term.debugLoc),
    M.mem_instructions.mpr ⟨x.2, M.mem_blockPtrs.mp hx, hloc⟩, rfl⟩

theorem instructionPtrs_eq (x : BasicBlockPtr × BasicBlock) :
    instructionPtrs x = (instructionPtrs x).dropLast ++
      [(getTerminator x, x.2.term.debugLoc)] := by
  have hsplit : instructionPtrs x =
      ((x.2.body.map Inst.debugLoc).zipIdx.map fun p => ((⟨x.1, p.2⟩ : InstructionPtr), p.1)) ++
        [(getTerminator x, x.2.term.debugLoc)] := by
    simp [instructionPtrs, BasicBlock.debugLocs, List.zipIdx_append, getTerminator]
  rw [hsplit, List.dropLast_concat]

/-! ### Rewriting -/

/-- What the blocks of a rewritten module are. -/
theorem blockAt_mapBlocks (g : BasicBlockPtr → BasicBlock → BasicBlock) (p : BasicBlockPtr) :
    (M.mapBlocks g).blockAt p = (M.blockAt p).map (g p) := by
  obtain ⟨f, b⟩ := p
  simp only [mapBlocks, blockAt, List.getElem?_mapIdx]
  cases M.functions[f]? <;> simp

/-- A rewriting that does not look at the position. -/
theorem functions_mapBlocks (g : BasicBlock → BasicBlock) :
    (M.mapBlocks fun _ => g).functions =
      M.functions.map fun F => { F with blocks := F.blocks.map g } := by
  refine List.ext_getElem? fun f => ?_
  rw [mapBlocks, List.getElem?_mapIdx, List.getElem?_map]
  cases M.functions[f]? with
  | none => rfl
  | some F =>
    have hblocks : (F.blocks.mapIdx fun _ BB => g BB) = F.blocks.map g := by
      refine List.ext_getElem? fun b => ?_
      rw [List.getElem?_mapIdx, List.getElem?_map]
    rw [Option.map_some, Option.map_some, hblocks]

/-- With distinct lines, a line determines the instruction that carries it. -/
theorem ptr_unique_of_nodup (hnd : M.locatedLines.Nodup) {line : BitVec 32}
    {I J : InstructionPtr} (hI : (I, some line) ∈ M.instructions)
    (hJ : (J, some line) ∈ M.instructions) : I = J := by
  unfold locatedLines at hnd
  generalize M.instructions = l at hnd hI hJ
  induction l with
  | nil => exact absurd hI List.not_mem_nil
  | cons x l ih =>
    have hmem : ∀ K, (K, some line) ∈ l → line ∈ l.filterMap Prod.snd := fun K hK =>
      List.mem_filterMap.mpr ⟨_, hK, rfl⟩
    rw [List.mem_cons] at hI hJ
    rcases hI with rfl | hI <;> rcases hJ with hJ | hJ
    · exact (Prod.mk.inj hJ).1.symm
    · exact absurd (hmem J hJ) (List.nodup_cons.mp hnd).1
    · subst hJ; exact absurd (hmem I hI) (List.nodup_cons.mp hnd).1
    · refine ih ?_ hI hJ
      cases hx : x.2 with
      | none => simpa [List.filterMap_cons, hx] using hnd
      | some line' =>
        rw [List.filterMap_cons_some hx] at hnd
        exact (List.nodup_cons.mp hnd).2

end Module

end LLVM
