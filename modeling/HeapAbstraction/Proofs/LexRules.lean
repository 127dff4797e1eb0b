import HeapAbstraction.Proofs.Lexing
import Mathlib.Data.List.TakeWhile

namespace HeapAbstraction.HeapFile

inductive LexRule where
  | comment
  | arrow
  | ident
  | int
  | mark
  | blank

namespace LexRule

def turn : LexRule → Nat
  | .comment => 0
  | .arrow => 1
  | .ident => 2
  | .int => 3
  | .mark => 4
  | .blank => 5

def marks : List Lexeme := [.lbrace, .rbrace, .lparen, .rparen, .colon, .dot, .comma, .slash]

inductive Takes : LexRule → Bytes → Option Lexeme → Prop
  | comment {s} : 10 ∉ s → Takes .comment (35 :: s) none
  | arrow : Takes .arrow "->" (some .arrow)
  | ident {s} : isIdentifier s = true → Takes .ident s (some (.ident s))
  | int {s} : isNumeral s = true → Takes .int s (some (.int s))
  | mark {l} : l ∈ marks → Takes .mark l.text (some l)
  | blank {b s} : isBlank b = true → s.all isBlank = true → Takes .blank (b :: s) none

structure Cuts (r : LexRule) (source : Bytes) (l : Option Lexeme) (text rest : Bytes) : Prop where
  append : source = text ++ rest
  takes : r.Takes text l
  longest : ∀ t l', t <+: source → r.Takes t l' → t.length ≤ text.length
  first : ∀ (r' : LexRule) (t : Bytes) (l' : Option Lexeme), r'.turn < r.turn → t <+: source → ¬ r'.Takes t l'

def ofByte (b : UInt8) : Option LexRule :=
  if b = 35 then some .comment
  else if b = 45 then some .arrow
  else if Bytes.isLetter b then some .ident
  else if Bytes.isDigit b then some .int
  else if (mark? b).isSome then some .mark
  else if isBlank b then some .blank
  else none

end LexRule

inductive Splits : Bytes → List Lexeme → Prop
  | nil : Splits [] []
  | cut {r : LexRule} {source text rest : Bytes} {l : Option Lexeme} {ls : List Lexeme} :
      r.Cuts source l text rest → Splits rest ls → Splits source (l.toList ++ ls)

variable {r : LexRule} {b : UInt8} {s source text rest : Bytes} {l : Option Lexeme} {ls : List Lexeme}

theorem LexRule.Takes.ofByte (ht : r.Takes text l) : ∃ b s, text = b :: s ∧ ofByte b = some r := by
  cases ht with
  | comment h => exact ⟨_, _, rfl, rfl⟩
  | arrow => exact ⟨45, [62], rfl, rfl⟩
  | ident h =>
    cases text with
    | nil => cases h
    | cons b s =>
      have hb := (Bool.and_eq_true_iff.mp h).1
      have hne (c : UInt8) (hc : Bytes.isLetter c = false) : b ≠ c := by
        rintro rfl
        simp [hb] at hc
      exact ⟨b, s, rfl, by rw [LexRule.ofByte, if_neg (hne 35 rfl), if_neg (hne 45 rfl), if_pos hb]⟩
  | int h =>
    cases text with
    | nil => cases h
    | cons b s =>
      have hb := (Bool.and_eq_true_iff.mp h).1
      have hne (c : UInt8) (hc : Bytes.isDigit c = false) : b ≠ c := by
        rintro rfl
        simp [hb] at hc
      have hl := isLetter_eq_false_of_isDigit hb
      exact ⟨b, s, rfl, by simp [LexRule.ofByte, hne 35 rfl, hne 45 rfl, hb, hl]⟩
  | mark h =>
    simp only [LexRule.marks, List.mem_cons, List.not_mem_nil, or_false] at h
    obtain rfl | rfl | rfl | rfl | rfl | rfl | rfl | rfl := h <;> exact ⟨_, _, rfl, rfl⟩
  | blank h =>
    refine ⟨_, _, rfl, ?_⟩
    simp only [isBlank, Bool.or_eq_true, beq_iff_eq] at h
    obtain ((rfl | rfl) | rfl) | rfl := h <;> rfl

theorem LexRule.Takes.unique {r' : LexRule} {t : Bytes} {l' : Option Lexeme} (ht : r.Takes text l) (ht' : r'.Takes t l')
    (hp : text <+: source) (hp' : t <+: source) : r' = r := by
  obtain ⟨b, s, rfl, hb⟩ := ht.ofByte
  obtain ⟨b', s', rfl, hb'⟩ := ht'.ofByte
  cases source with
  | nil => simp at hp
  | cons c source =>
    obtain ⟨rfl, -⟩ := List.cons_prefix_cons.mp hp
    obtain ⟨rfl, -⟩ := List.cons_prefix_cons.mp hp'
    exact Option.some.inj (hb'.symm.trans hb)

theorem length_le_takeWhile {p : UInt8 → Bool} {t : Bytes} (ht : t <+: s) (hp : t.all p = true) :
    t.length ≤ (s.takeWhile p).length := by
  obtain ⟨rest, rfl⟩ := ht
  rw [List.takeWhile_append_of_pos (List.all_eq_true.mp hp), List.length_append]
  exact Nat.le_add_right ..

theorem LexRule.cuts_of_takes (text rest : Bytes) (ht : r.Takes text l)
    (hlongest : ∀ t l', t <+: text ++ rest → r.Takes t l' → t.length ≤ text.length) : r.Cuts (text ++ rest) l text rest := by
  refine ⟨rfl, ht, hlongest, fun r' t l' hlt hp ht' => ?_⟩
  rw [ht.unique ht' (List.prefix_append text rest) hp] at hlt
  exact lt_irrefl _ hlt

theorem mark?_eq_some {m : Lexeme} : mark? b = some m → m ∈ LexRule.marks ∧ m.text = [b] := by
  fun_cases mark? b <;> rintro ⟨⟩ <;> exact ⟨by decide, rfl⟩

theorem exists_mark? {m : Lexeme} (hm : m ∈ LexRule.marks) : ∃ b, m.text = [b] ∧ mark? b = some m := by
  simp only [LexRule.marks, List.mem_cons, List.not_mem_nil, or_false] at hm
  obtain rfl | rfl | rfl | rfl | rfl | rfl | rfl | rfl := hm <;> exact ⟨_, rfl, rfl⟩

theorem all_ne_newline (h : 10 ∉ s) : s.all (· != 10) = true :=
  List.all_eq_true.mpr fun _ hc => bne_iff_ne.mpr fun heq => h (heq ▸ hc)

theorem LexRule.cuts_run {p : UInt8 → Bool} (ht : r.Takes (b :: s.takeWhile p) l)
    (hall : ∀ c t l', r.Takes (c :: t) l' → t.all p = true) : r.Cuts (b :: s) l (b :: s.takeWhile p) (s.dropWhile p) := by
  have hs : b :: s = b :: s.takeWhile p ++ s.dropWhile p := by
    rw [List.cons_append, List.takeWhile_append_dropWhile]
  rw [hs]
  refine cuts_of_takes _ _ ht fun t l' hp ht' => ?_
  rw [← hs] at hp
  obtain ⟨c, u, rfl, -⟩ := ht'.ofByte
  exact Nat.succ_le_succ (length_le_takeWhile (List.cons_prefix_cons.mp hp).2 (hall c u l' ht'))

theorem exists_cuts_of_munch? {m : Munch} : munch? source = some m → ∃ r : LexRule, r.Cuts source m.lexeme m.text m.rest := by
  fun_cases munch? source with
  | case1 => rintro ⟨⟩
  | case2 s =>
    rintro ⟨⟩
    refine ⟨.comment, LexRule.cuts_run (.comment fun h => ?_) ?_⟩
    · simpa using List.mem_takeWhile_imp h
    · intro c t l' ht
      cases ht with
      | comment h => exact all_ne_newline h
  | case3 s =>
    rintro ⟨⟩
    refine ⟨.arrow, LexRule.cuts_of_takes [45, 62] s .arrow ?_⟩
    rintro t l' - ⟨⟩
    exact le_rfl
  | case4 b s _ _ hb =>
    rintro ⟨⟩
    refine ⟨.ident, LexRule.cuts_run (.ident (Bool.and_eq_true_iff.mpr ⟨hb, ?_⟩)) ?_⟩
    · exact List.all_eq_true.mpr fun _ hc => List.mem_takeWhile_imp hc
    · intro c t l' ht
      cases ht with
      | ident h => exact (Bool.and_eq_true_iff.mp h).2
  | case5 b s _ _ _ hb =>
    rintro ⟨⟩
    refine ⟨.int, LexRule.cuts_run (.int (Bool.and_eq_true_iff.mpr ⟨hb, ?_⟩)) ?_⟩
    · exact List.all_eq_true.mpr fun _ hc => List.mem_takeWhile_imp hc
    · intro c t l' ht
      cases ht with
      | int h => exact (Bool.and_eq_true_iff.mp h).2
  | case6 b s _ _ _ _ m hm =>
    rintro ⟨⟩
    obtain ⟨hmark, htext⟩ := mark?_eq_some hm
    refine ⟨.mark, LexRule.cuts_of_takes [b] s (htext ▸ .mark hmark) ?_⟩
    intro t l' _ ht
    cases ht with
    | mark h =>
      obtain ⟨c, hc, -⟩ := exists_mark? h
      simp [hc]
  | case7 b s _ _ _ _ _ hb =>
    rintro ⟨⟩
    refine ⟨.blank, LexRule.cuts_run (.blank hb ?_) ?_⟩
    · exact List.all_eq_true.mpr fun _ hc => List.mem_takeWhile_imp hc
    · intro c t l' ht
      cases ht with
      | blank _ h => exact h
  | case8 b s => rintro ⟨⟩

theorem LexRule.Cuts.head_rest {p : UInt8 → Bool} {t : Bytes} (hc : r.Cuts source l (b :: t) rest)
    (hall : t.all p = true) (hmore : ∀ u, u.all p = true → ∃ l', r.Takes (b :: u) l') :
    ∀ c ∈ rest.head?, p c = false := by
  intro c hhead
  obtain ⟨rest, rfl⟩ := List.head?_eq_some_iff.mp hhead
  cases hpc : p c with
  | false => rfl
  | true =>
    obtain ⟨l', ht⟩ := hmore (t ++ [c]) (by simp [hall, hpc])
    have hlen := hc.longest _ l' ⟨rest, by simp [hc.append]⟩ ht
    simp only [List.length_cons, List.length_append, List.length_nil] at hlen
    omega

theorem munch?_of_cuts (hc : r.Cuts source l text rest) : munch? source = some ⟨l, text, rest⟩ := by
  obtain rfl := hc.append
  cases hc.takes with
  | @comment s h =>
    have hstop := hc.head_rest (all_ne_newline h) fun u hu => ⟨none, .comment fun hm => ?_⟩
    · obtain ⟨htake, hdrop⟩ := span_append (all_ne_newline h) hstop
      have hm : munch? (35 :: (s ++ rest)) = some ⟨none, _, _⟩ := rfl
      rw [List.cons_append, hm, htake, hdrop]
    · simpa using List.all_eq_true.mp hu 10 hm
  | arrow => rfl
  | ident h =>
    cases text with
    | nil => cases h
    | cons b s =>
      obtain ⟨hb, hs⟩ := Bool.and_eq_true_iff.mp h
      have hstop := hc.head_rest hs fun u hu => ⟨_, .ident (Bool.and_eq_true_iff.mpr ⟨hb, hu⟩)⟩
      obtain ⟨htake, hdrop⟩ := span_append hs hstop
      rw [List.cons_append, munch?_letter hb, htake, hdrop]
  | int h =>
    cases text with
    | nil => cases h
    | cons b s =>
      obtain ⟨hb, hs⟩ := Bool.and_eq_true_iff.mp h
      have hstop := hc.head_rest hs fun u hu => ⟨_, .int (Bool.and_eq_true_iff.mpr ⟨hb, hu⟩)⟩
      obtain ⟨htake, hdrop⟩ := span_append hs hstop
      rw [List.cons_append, munch?_digit hb, htake, hdrop]
  | @mark m h =>
    obtain ⟨b, htext, hb⟩ := exists_mark? h
    rw [htext]
    exact munch?_mark hb
  | @blank b s hb hs =>
    have hstop := hc.head_rest hs fun u hu => ⟨none, .blank hb hu⟩
    obtain ⟨htake, hdrop⟩ := span_append hs hstop
    rw [List.cons_append, munch?_blank hb, htake, hdrop]

theorem splits_iff_lexes : Splits source ls ↔ Lexes source ls := by
  constructor
  · intro hs
    induction hs with
    | nil => exact .nil
    | @cut r source text rest l ls hc _ ih =>
      cases l with
      | none => exact .skip (munch?_of_cuts hc) ih
      | some l => exact .token (munch?_of_cuts hc) ih
  · intro hl
    induction hl with
    | nil => exact .nil
    | token hm _ ih =>
      obtain ⟨r, hc⟩ := exists_cuts_of_munch? hm
      exact .cut hc ih
    | skip hm _ ih =>
      obtain ⟨r, hc⟩ := exists_cuts_of_munch? hm
      exact .cut hc ih

theorem lexes_of_tokensFrom {n : Nat} {p : Position} {t : Tokens} (ht : tokensFrom n p source = .ok t) :
    Lexes source (t.tokens.map Token.lexeme) := by
  induction n generalizing source p t with
  | zero =>
    cases source with
    | nil =>
      cases ht
      exact .nil
    | cons b s => cases ht
  | succ n ih =>
    cases hm : munch? source with
    | none =>
      cases source with
      | nil =>
        cases ht
        exact .nil
      | cons b s =>
        rw [tokensFrom.eq_3 _ _ _ (List.cons_ne_nil b s), hm] at ht
        cases ht
    | some m =>
      obtain ⟨lexeme, text, rest⟩ := m
      rw [tokensFrom_of_munch? hm] at ht
      obtain ⟨later, hlater, rfl⟩ : ∃ later, tokensFrom n (p.after text) rest = .ok later ∧ _ = t := by
        cases hlater : tokensFrom n (p.after text) rest with
        | error e => simp [hlater, Except.map] at ht
        | ok later => exact ⟨later, rfl, by simpa [hlater, Except.map] using ht⟩
      cases lexeme with
      | none => exact .skip hm (ih hlater)
      | some l => exact .token hm (ih hlater)

theorem tokenize_iff : (∃ t, tokenize source = .ok t ∧ t.tokens.map Token.lexeme = ls) ↔ Splits source ls := by
  rw [splits_iff_lexes]
  constructor
  · rintro ⟨t, ht, rfl⟩
    exact lexes_of_tokensFrom ht
  · intro hl
    exact tokensFrom_of_lexes hl le_rfl {}

theorem Splits.unique {ls' : List Lexeme} (hs : Splits source ls) (hs' : Splits source ls') : ls = ls' := by
  obtain ⟨t, ht, rfl⟩ := tokenize_iff.mpr hs
  obtain ⟨t', ht', rfl⟩ := tokenize_iff.mpr hs'
  rw [ht] at ht'
  rw [Except.ok.inj ht']

theorem Splits.isNumeral (hs : Splits source ls) : ∀ digits, .int digits ∈ ls → isNumeral digits = true := by
  induction hs with
  | nil => simp
  | cut hc _ ih =>
    intro digits hm
    rcases List.mem_append.mp hm with hm | hm
    · rw [Option.mem_toList] at hm
      subst hm
      cases hc.takes with
      | int h => exact h
      | mark h => simp [LexRule.marks] at h
    · exact ih digits hm

end HeapAbstraction.HeapFile
