import Gpscat.CoFloCo.BoundParser
import Gpscat.Lib.Proofs.CppStringProofs

/-!
# The parser reads what is printed

`parse_text`: an expression whose parentheses stand where its text needs them is read back from that
text. The two passes are treated one after the other, each by induction on the expression.
-/

namespace Gpscat.Bound

open Cpp

/-! ## Tokens of an expression -/

mutual

/-- The tokens of the text of an expression. -/
def Exp.toks : Exp → List Token
  | .int n => if n < 0 then [.sym '-', .num n.natAbs] else [.num n.natAbs]
  | .ident x => [.word x.name]
  | .neg e => .sym '-' :: e.toks
  | .bin op a b => a.toks ++ .sym op.char :: b.toks
  | .paren e => .sym '(' :: (e.toks ++ [.sym ')'])
  | .natOf e => .call "nat".toList :: (e.toks ++ [.sym ')'])
  | .maxOf es => .call "max".toList :: .sym '[' :: (es.toks ++ [.sym ']', .sym ')'])
  | .minOf es => .call "min".toList :: .sym '[' :: (es.toks ++ [.sym ']', .sym ')'])

def Args.toks : Args → List Token
  | .one e => e.toks
  | .cons e es => e.toks ++ .sym ',' :: es.toks

end

/-- What may follow a word without becoming a part of it or of its token. -/
def Separated (s : Text) : Prop := ∀ c ∈ s.head?, isWordChar c = false ∧ c ≠ '('

theorem separated_cons {c : Char} (s : Text) (h : isWordChar c = false ∧ c ≠ '(') :
    Separated (c :: s) := by
  intro d hd
  obtain rfl : c = d := by simpa using hd
  exact h

/-- The first pass takes the characters of a word one by one. -/
theorem tokensAfter_word {w' : Text} (hw : ∀ c ∈ w', isWordChar c) (w s : Text) :
    tokensAfter w (w' ++ s) = tokensAfter (w ++ w') s := by
  induction w' generalizing w with
  | nil => rw [List.nil_append, List.append_nil]
  | cons c w' ih =>
    have hc := hw c List.mem_cons_self
    rw [List.cons_append, tokensAfter, if_pos hc, ih fun d hd => hw d (List.mem_cons_of_mem c hd),
      List.append_assoc, List.singleton_append]

/-- It makes a token of the word where the word ends. -/
theorem tokensAfter_separated (w : Text) {s : Text} (hs : Separated s) :
    tokensAfter w s = (tokens s).map (wordToken w ++ ·) := by
  cases s with
  | nil => simp [tokensAfter, tokens, wordToken]
  | cons c s =>
    obtain ⟨hword, hparen⟩ := hs c rfl
    have hnil : wordToken [] = [] := rfl
    rw [tokens, tokensAfter, tokensAfter, hword]
    simp only [Bool.false_eq_true, if_false, hparen, false_and, hnil, List.nil_append]
    split_ifs
    · rw [Option.map_map]; rfl
    · rw [Option.map_map]; rfl
    · rfl

theorem tokens_word {w : Text} (hw : ∀ c ∈ w, isWordChar c) {s : Text} (hs : Separated s) :
    tokens (w ++ s) = (tokens s).map (wordToken w ++ ·) := by
  rw [tokens, tokensAfter_word hw, List.nil_append]
  exact tokensAfter_separated w hs

/-- A symbol is no part of a word and no blank. -/
theorem isSymbol_spec {c : Char} (hc : isSymbol c = true) : isWordChar c = false ∧ c ≠ ' ' := by
  have hmem : c ∈ ['+', '-', '*', '/', '(', ')', '[', ']', ','] := List.contains_iff_mem.mp hc
  simp only [List.mem_cons, List.not_mem_nil, or_false] at hmem
  rcases hmem with rfl | rfl | rfl | rfl | rfl | rfl | rfl | rfl | rfl <;> decide

theorem tokens_sym {c : Char} (s : Text) (hc : isSymbol c = true) :
    tokens (c :: s) = (tokens s).map (.sym c :: ·) := by
  obtain ⟨hword, hspace⟩ := isSymbol_spec hc
  rw [tokens, tokensAfter, if_neg (by rw [hword]; exact Bool.false_ne_true), if_neg (by simp),
    if_neg hspace, if_pos hc]
  rfl

/-- A word directly before a parenthesis is one token with it. -/
theorem tokens_call {w : Text} (hw : w.all isWordChar = true) (hne : w ≠ []) (s : Text) :
    tokens (w ++ '(' :: s) = (tokens s).map (.call w :: ·) := by
  rw [tokens, tokensAfter_word (List.all_eq_true.mp hw), List.nil_append, tokensAfter, if_neg (by decide),
    if_pos ⟨rfl, hne⟩]

theorem tokens_listOpen {w : Text} (hw : w.all isWordChar = true) (hne : w ≠ []) (s : Text) :
    tokens (w ++ ['(', '['] ++ s) = (tokens s).map (.call w :: .sym '[' :: ·) := by
  rw [List.append_assoc, List.cons_append, List.singleton_append, tokens_call hw hne,
    tokens_sym _ rfl, Option.map_map]
  rfl

theorem tokens_spaced (s : Text) : tokens (spaced s) = tokens s := by
  unfold spaced
  split_ifs
  · rw [tokens, tokensAfter, if_neg (by decide), if_neg (by simp), if_pos rfl]
    simp [wordToken]
  · rfl

/-- The blank in front of a minus sign leaves no token. -/
theorem tokens_spaced_append {s : Text} (hne : s ≠ []) (t : Text) :
    tokens (spaced s ++ t) = tokens (s ++ t) := by
  have happ : spaced s ++ t = spaced (s ++ t) := by
    obtain ⟨c, s, rfl⟩ := List.exists_cons_of_ne_nil hne
    by_cases hc : c = '-'
    · simp [spaced, hc]
    · simp [spaced, hc]
  rw [happ, tokens_spaced]

theorem isWordChar_of_isDigit {c : Char} (h : c.isDigit = true) : isWordChar c = true := by
  simp [isWordChar, Char.isAlphanum, h]

theorem tokens_num (n : Nat) {s : Text} (hs : Separated s) :
    tokens (Nat.toDigits 10 n ++ s) = (tokens s).map (.num n :: ·) := by
  have hword : wordToken (Nat.toDigits 10 n) = [.num n] := by
    have hall : (Nat.toDigits 10 n).all Char.isDigit = true :=
      List.all_eq_true.mpr fun c hc => toDigits_isDigit hc
    rw [wordToken, if_neg Nat.toDigits_ne_nil, if_pos hall, Nat.ofDigitChars_ten_toDigits]
  rw [tokens_word (fun c hc => isWordChar_of_isDigit (toDigits_isDigit hc)) hs, hword]
  rfl

theorem Ident.name_ne_nil (x : Ident) : x.name ≠ [] := by
  intro h
  have := x.nonNumeral
  rw [h] at this
  exact absurd this (by decide)

theorem BinOp.char_spec (op : BinOp) :
    isWordChar op.char = false ∧ isSymbol op.char = true ∧ op.char ≠ '(' := by
  cases op <;> decide

mutual

theorem Exp.text_ne_nil : ∀ e : Exp, e.text ≠ []
  | .int n => by
    rw [Exp.text]
    split_ifs
    · exact List.cons_ne_nil _ _
    · exact Nat.toDigits_ne_nil
  | .ident x => x.name_ne_nil
  | .neg _ | .paren _ | .natOf _ | .maxOf _ | .minOf _ => by
    rw [Exp.text]
    exact List.cons_ne_nil _ _
  | .bin op a b => by
    rw [Exp.text]
    exact List.append_ne_nil_of_left_ne_nil (Exp.text_ne_nil a) _

end

mutual

/-- The first pass on the text of an expression. -/
theorem Exp.tokens_text : ∀ (e : Exp) {s : Text}, Separated s →
    tokens (e.text ++ s) = (tokens s).map (e.toks ++ ·)
  | .int n, s, hs => by
    rw [Exp.text, Exp.toks]
    split_ifs
    · rw [List.cons_append, tokens_sym _ rfl, tokens_num _ hs, Option.map_map]
      rfl
    · rw [tokens_num _ hs]
      rfl
  | .ident x, s, hs => by
    have hword : wordToken x.name = [.word x.name] := by
      rw [wordToken, if_neg x.name_ne_nil, x.nonNumeral, if_neg Bool.false_ne_true]
    rw [Exp.text, Exp.toks, tokens_word (List.all_eq_true.mp x.isWord) hs, hword]
  | .neg e, s, hs => by
    rw [Exp.text, Exp.toks, List.cons_append, tokens_sym _ rfl,
      tokens_spaced_append e.text_ne_nil, Exp.tokens_text e hs, Option.map_map]
    rfl
  | .bin op a b, s, hs => by
    obtain ⟨hword, hsym, hparen⟩ := op.char_spec
    rw [Exp.text, Exp.toks, List.append_assoc, List.cons_append,
      Exp.tokens_text a (separated_cons _ ⟨hword, hparen⟩), tokens_sym _ hsym,
      tokens_spaced_append b.text_ne_nil, Exp.tokens_text b hs, Option.map_map, Option.map_map]
    simp [Function.comp_def]
  | .paren e, s, hs => by
    rw [Exp.text, Exp.toks, List.cons_append, List.append_assoc, List.singleton_append,
      tokens_sym _ rfl, Exp.tokens_text e (separated_cons _ (by decide)), tokens_sym _ rfl,
      Option.map_map, Option.map_map]
    simp [Function.comp_def]
  | .natOf e, s, hs => by
    have hopen : "nat(".toList = "nat".toList ++ ['('] := rfl
    rw [Exp.text, Exp.toks, hopen, List.append_assoc, List.append_assoc, List.append_assoc,
      List.singleton_append, List.singleton_append, tokens_call (by decide) (by decide),
      Exp.tokens_text e (separated_cons _ (by decide)),
      tokens_sym _ rfl, Option.map_map, Option.map_map]
    simp [Function.comp_def]
  | .maxOf es, s, hs => by
    have hopen : "max([".toList = "max".toList ++ ['(', '['] := rfl
    rw [Exp.text, Exp.toks, List.append_assoc, List.append_assoc, hopen,
      tokens_listOpen (by decide) (by decide), Args.tokens_list es s, Option.map_map]
    simp [Function.comp_def]
  | .minOf es, s, hs => by
    have hopen : "min([".toList = "min".toList ++ ['(', '['] := rfl
    rw [Exp.text, Exp.toks, List.append_assoc, List.append_assoc, hopen,
      tokens_listOpen (by decide) (by decide), Args.tokens_list es s, Option.map_map]
    simp [Function.comp_def]

theorem Args.tokens_list : ∀ (es : Args) (s : Text),
    tokens (es.text ++ ("])".toList ++ s)) =
      (tokens s).map fun ts => es.toks ++ .sym ']' :: .sym ')' :: ts
  | .one e, s => by
    rw [Args.text, Args.toks, show "])".toList ++ s = ']' :: ')' :: s from rfl,
      Exp.tokens_text e (separated_cons _ (by decide)),
      tokens_sym _ rfl, tokens_sym _ rfl, Option.map_map, Option.map_map]
    rfl
  | .cons e es, s => by
    rw [Args.text, Args.toks, List.append_assoc, List.cons_append,
      Exp.tokens_text e (separated_cons _ (by decide)),
      tokens_sym _ rfl, Args.tokens_list es s, Option.map_map, Option.map_map]
    simp [Function.comp_def]

end

/-! ## Reading the tokens -/

mutual

/-- The parentheses of the expression stand where its text needs them. -/
def Exp.WellLaid : Exp → Prop
  | .int _ | .ident _ => True
  | .neg e => e.WellLaid ∧ e.level ≤ 1 ∧ e.isNumeral = false
  | .bin op a b => a.WellLaid ∧ b.WellLaid ∧ a.level ≤ op.level ∧ b.level ≤ op.level - 1
  | .paren e | .natOf e => e.WellLaid
  | .maxOf es | .minOf es => es.WellLaid

def Args.WellLaid : Args → Prop
  | .one e => e.WellLaid
  | .cons e es => e.WellLaid ∧ es.WellLaid

end

/-- The automaton on the tokens of an expression, depending on how weakly it binds. -/
structure Reads (e : Exp) : Prop where
  operand : e.level ≤ 1 → ∀ p outer,
    e.toks.foldlM step (.operand p outer) = some (p.complete e outer)
  product : e.level ≤ 2 → ∀ sum outer,
    e.toks.foldlM step (.operand { sum := sum } outer) = some (.operator sum e outer)
  whole : ∀ outer, ∃ sum term,
    e.toks.foldlM step (.operand {} outer) = some (.operator sum term outer) ∧
      Waiting.apply sum term = e

/-- An expression that may stand for an operand may also be the first factor, or all there is. -/
theorem reads_of_operand {e : Exp} (h : ∀ p outer,
    e.toks.foldlM step (.operand p outer) = some (p.complete e outer)) : Reads e where
  operand _ := h
  product _ sum outer := h { sum := sum } outer
  whole outer := ⟨none, e, h {} outer, rfl⟩

theorem BinOp.binOpOf_char (op : BinOp) : binOpOf op.char = some op := by cases op <;> rfl

theorem stepOperator_bin (op : BinOp) (sum : Waiting) (term : Exp) (outer : Outer) :
    stepOperator sum term outer op.char =
      if op.level = 2 then some (.operand { sum, prod := some (op, term) } outer)
      else some (.operand { sum := some (op, sum.apply term) } outer) := by
  rw [stepOperator, op.binOpOf_char]

theorem reads_int (n : ℤ) : Reads (.int n) := by
  refine reads_of_operand fun p outer => ?_
  rw [Exp.toks]
  split_ifs with hn
  · have hneg : -(n.natAbs : ℤ) = n := by omega
    have hread : ([.sym '-', .num n.natAbs] : List Token).foldlM step (.operand p outer) =
      some (p.complete (.int (-(n.natAbs : ℤ))) outer) := rfl
    rw [hread, hneg]
  · have hpos : (n.natAbs : ℤ) = n := by omega
    have hread : ([.num n.natAbs] : List Token).foldlM step (.operand p outer) =
      some (p.complete (.int (n.natAbs : ℤ)) outer) := rfl
    rw [hread, hpos]

/-- Except on an unsigned integer, a minus sign is a prefix operator. -/
theorem foldlM_minus {e : Exp} (hlevel : e.level ≤ 1) (hnum : e.isNumeral = false) (p : Pending)
    (outer : Outer) :
    e.toks.foldlM step (.minus p outer) =
      e.toks.foldlM step (.operand { p with negs := p.negs + 1 } outer) := by
  cases e with
  | int n =>
    have hn : n < 0 := by simpa [Exp.isNumeral] using hnum
    rw [Exp.toks, if_pos hn]
    rfl
  | bin op a b => exact absurd hlevel (by cases op <;> simp [Exp.level, BinOp.level])
  | ident x => rfl
  | neg e => rfl
  | paren e => rfl
  | natOf e => rfl
  | maxOf es => rfl
  | minOf es => rfl

/-- The minus signs are counted, and applied when the operand behind them is complete. -/
theorem reads_neg {e : Exp} (he : Reads e) (hlevel : e.level ≤ 1) (hnum : e.isNumeral = false) :
    Reads (.neg e) := by
  refine reads_of_operand fun p outer => ?_
  have hstep : step (.operand p outer) (.sym '-') = some (.minus p outer) := rfl
  rw [Exp.toks, List.foldlM_cons, hstep, Option.bind_eq_bind, Option.bind_some,
    foldlM_minus hlevel hnum, he.operand hlevel]
  rfl

/-- An expression in parentheses, whichever word stands in front of them. -/
theorem reads_bracket {e e' : Exp} (he : Reads e) {t : Token} {b : Bracket}
    (htoks : e'.toks = t :: (e.toks ++ [.sym ')']))
    (hopen : ∀ p outer, step (.operand p outer) t = some (.operand {} ((b, p) :: outer)))
    (hclose : ∀ p outer, closeParen e ((b, p) :: outer) = some (p.complete e' outer)) :
    Reads e' := by
  refine reads_of_operand fun p outer => ?_
  obtain ⟨sum, term, hread, hwhole⟩ := he.whole ((b, p) :: outer)
  rw [htoks, List.foldlM_cons, hopen, Option.bind_eq_bind, Option.bind_some, List.foldlM_append,
    hread, Option.bind_eq_bind, Option.bind_some]
  have hstep : step (.operator sum term ((b, p) :: outer)) (.sym ')') =
      closeParen (sum.apply term) ((b, p) :: outer) := rfl
  rw [List.foldlM_cons, hstep, hwhole, hclose]
  rfl

/-- An argument list in its two brackets. -/
theorem reads_list {es : Args} (f : ListFn) {e' : Exp} {w : Text}
    (hes : ∀ p outer, (es.toks ++ [Token.sym ']']).foldlM step
      (.operand {} ((.list f [], p) :: outer)) = some (.listClose (f.exp es) p outer))
    (htoks : e'.toks = .call w :: .sym '[' :: (es.toks ++ [.sym ']', .sym ')']))
    (hopen : ∀ p outer, step (.operand p outer) (.call w) = some (.listOpen f p outer))
    (he' : f.exp es = e') : Reads e' := by
  refine reads_of_operand fun p outer => ?_
  have hsplit : es.toks ++ [.sym ']', .sym ')'] = (es.toks ++ [.sym ']']) ++ [.sym ')'] := by
    rw [List.append_assoc]; rfl
  have hlist : step (.listOpen f p outer) (.sym '[') =
    some (.operand {} ((.list f [], p) :: outer)) := rfl
  rw [htoks, List.foldlM_cons, hopen, Option.bind_eq_bind, Option.bind_some, List.foldlM_cons,
    hlist, Option.bind_eq_bind, Option.bind_some, hsplit, List.foldlM_append, hes,
    Option.bind_eq_bind, Option.bind_some, he']
  rfl

/-- The left operand waits until the right one, which binds more strongly, is complete. -/
theorem reads_bin {op : BinOp} {a b : Exp} (ha : Reads a) (hb : Reads b)
    (hla : a.level ≤ op.level) (hlb : b.level ≤ op.level - 1) : Reads (.bin op a b) := by
  have hoperator : ∀ sum term outer, step (.operator sum term outer) (.sym op.char) =
      stepOperator sum term outer op.char := fun _ _ _ => rfl
  by_cases hop : op.level = 2
  · have hproduct : ∀ sum outer, (Exp.bin op a b).toks.foldlM step (.operand { sum := sum } outer) =
        some (.operator sum (.bin op a b) outer) := by
      intro sum outer
      rw [Exp.toks, List.foldlM_append, ha.product (by omega), Option.bind_eq_bind,
        Option.bind_some, List.foldlM_cons, hoperator, stepOperator_bin, if_pos hop,
        Option.bind_eq_bind, Option.bind_some, hb.operand (by omega)]
      rfl
    refine ⟨fun h => ?_, fun _ => hproduct, fun outer => ⟨none, _, hproduct none outer, rfl⟩⟩
    simp only [Exp.level] at h
    omega
  · have hop : op.level = 3 := by cases op <;> first | rfl | exact absurd rfl hop
    refine ⟨fun h => ?_, fun h => ?_, fun outer => ?_⟩
    · simp only [Exp.level] at h
      omega
    · simp only [Exp.level] at h
      omega
    · obtain ⟨sum, term, hread, hwhole⟩ := ha.whole outer
      refine ⟨some (op, a), b, ?_, rfl⟩
      rw [Exp.toks, List.foldlM_append, hread, Option.bind_eq_bind, Option.bind_some,
        List.foldlM_cons, hoperator, stepOperator_bin, if_neg (by omega), Option.bind_eq_bind,
        Option.bind_some, hwhole, hb.product (by omega)]

mutual

/-- The second pass on the tokens of an expression. -/
theorem Exp.reads : ∀ e : Exp, e.WellLaid → Reads e
  | .int n, _ => reads_int n
  | .ident x, _ => reads_of_operand fun p outer => by
      have hx : x.name.all isWordChar = true ∧ x.name.all Char.isDigit = false :=
        ⟨x.isWord, x.nonNumeral⟩
      rw [Exp.toks, List.foldlM_cons, step, stepOperand, dif_pos hx]
      rfl
  | .neg e, h => by
    rw [Exp.WellLaid] at h
    exact reads_neg (Exp.reads e h.1) h.2.1 h.2.2
  | .bin op a b, h => by
    rw [Exp.WellLaid] at h
    obtain ⟨ha, hb, hla, hlb⟩ := h
    exact reads_bin (Exp.reads a ha) (Exp.reads b hb) hla hlb
  | .paren e, h => by
    rw [Exp.WellLaid] at h
    exact reads_bracket (Exp.reads e h) (by rw [Exp.toks]) (fun _ _ => rfl) fun _ _ => rfl
  | .natOf e, h => by
    rw [Exp.WellLaid] at h
    exact reads_bracket (Exp.reads e h) (by rw [Exp.toks]) (fun _ _ => rfl) fun _ _ => rfl
  | .maxOf es, h => by
    rw [Exp.WellLaid] at h
    exact reads_list .max (Args.reads es h .max []) (by rw [Exp.toks]) (fun _ _ => rfl) rfl
  | .minOf es, h => by
    rw [Exp.WellLaid] at h
    exact reads_list .min (Args.reads es h .min []) (by rw [Exp.toks]) (fun _ _ => rfl) rfl

theorem Args.reads : ∀ es : Args, es.WellLaid → ∀ (f : ListFn) (done : List Exp) (p : Pending)
    (outer : Outer), (es.toks ++ [Token.sym ']']).foldlM step
      (.operand {} ((.list f done, p) :: outer)) =
        some (.listClose (f.exp (done.foldl (fun es e => .cons e es) es)) p outer)
  | .one e, h, f, done, p, outer => by
    rw [Args.WellLaid] at h
    obtain ⟨sum, term, hread, hwhole⟩ := (Exp.reads e h).whole ((.list f done, p) :: outer)
    have hstep : step (.operator sum term ((.list f done, p) :: outer)) (.sym ']') =
      listEnd (sum.apply term) ((.list f done, p) :: outer) := rfl
    rw [Args.toks, List.foldlM_append, hread, Option.bind_eq_bind, Option.bind_some,
      List.foldlM_cons, hstep, hwhole]
    rfl
  | .cons e es, h, f, done, p, outer => by
    rw [Args.WellLaid] at h
    obtain ⟨sum, term, hread, hwhole⟩ := (Exp.reads e h.1).whole ((.list f done, p) :: outer)
    have hstep : step (.operator sum term ((.list f done, p) :: outer)) (.sym ',') =
      listNext (sum.apply term) ((.list f done, p) :: outer) := rfl
    have hnext : listNext e ((.list f done, p) :: outer) =
      some (.operand {} ((.list f (e :: done), p) :: outer)) := rfl
    rw [Args.toks, List.append_assoc, List.cons_append, List.foldlM_append, hread,
      Option.bind_eq_bind, Option.bind_some, List.foldlM_cons, hstep, hwhole, hnext,
      Option.bind_eq_bind, Option.bind_some, Args.reads es h.2 f (e :: done) p outer]
    rfl

end

/-- An expression is read back from its text. -/
theorem parse_text {e : Exp} (h : e.WellLaid) : parse e.text = some e := by
  have htokens : tokens e.text = some e.toks := by
    have := e.tokens_text (s := []) (by intro c hc; exact absurd hc (by simp))
    rw [List.append_nil] at this
    rw [this]
    simp [tokens, tokensAfter, wordToken]
  obtain ⟨sum, term, hread, hwhole⟩ := (e.reads h).whole []
  rw [parse, htokens, Option.bind_some, hread, Option.bind_some, finish, hwhole]

end Gpscat.Bound
