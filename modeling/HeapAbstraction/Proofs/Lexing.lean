import HeapAbstraction.HeapFile.Definitions
import HeapAbstraction.Heap.Printer

namespace HeapAbstraction.HeapFile

def isIdentifier : Bytes → Bool
  | [] => false
  | b :: s => Bytes.isLetter b && s.all isNameByte

def isNumeral : Bytes → Bool
  | [] => false
  | b :: s => Bytes.isDigit b && s.all Bytes.isDigit

inductive Lexes : Bytes → List Lexeme → Prop
  | nil : Lexes [] []
  | token {s text rest l ls} : munch? s = some ⟨some l, text, rest⟩ → Lexes rest ls → Lexes s (l :: ls)
  | skip {s text rest ls} : munch? s = some ⟨none, text, rest⟩ → Lexes rest ls → Lexes s ls

theorem length_rest_lt {s : Bytes} {m : Munch} : munch? s = some m → m.rest.length < s.length := by
  have hdrop (b : UInt8) (p : UInt8 → Bool) (s : Bytes) : (s.dropWhile p).length < (b :: s).length :=
    Nat.lt_succ_of_le (List.dropWhile_suffix p).length_le
  fun_cases munch? s with
  | case1 => rintro ⟨⟩
  | case2 s =>
    rintro ⟨⟩
    exact hdrop ..
  | case3 s =>
    rintro ⟨⟩
    simp only [List.length_cons]
    omega
  | case4 b s =>
    rintro ⟨⟩
    exact hdrop ..
  | case5 b s =>
    rintro ⟨⟩
    exact hdrop ..
  | case6 b s =>
    rintro ⟨⟩
    simp
  | case7 b s =>
    rintro ⟨⟩
    exact hdrop ..
  | case8 b s => rintro ⟨⟩

theorem tokensFrom_of_munch? {s : Bytes} {m : Munch} (hm : munch? s = some m) (n : Nat) (p : Position) :
    tokensFrom (n + 1) p s = (tokensFrom n (p.after m.text) m.rest).map (fun later =>
      ⟨m.lexeme.toList.map (⟨·, p⟩) ++ later.tokens, later.finish⟩) := by
  cases s with
  | nil => cases hm
  | cons b s =>
    obtain ⟨lexeme, text, rest⟩ := m
    rw [tokensFrom.eq_3 _ _ _ (List.cons_ne_nil b s), hm]
    dsimp only
    cases lexeme <;> cases tokensFrom n (p.after text) rest <;> rfl

theorem tokensFrom_of_lexes {s : Bytes} {ls : List Lexeme} (hl : Lexes s ls) {n : Nat} (hn : s.length ≤ n)
    (p : Position) : ∃ t, tokensFrom n p s = .ok t ∧ t.tokens.map Token.lexeme = ls := by
  induction hl generalizing n p with
  | nil => exact ⟨⟨[], p⟩, by simp [tokensFrom], rfl⟩
  | @token s text rest l ls hm _ ih =>
    have hlt := length_rest_lt hm
    obtain ⟨n, rfl⟩ : ∃ k, n = k + 1 := ⟨n - 1, by omega⟩
    obtain ⟨t, ht, hls⟩ := ih (Nat.le_of_lt_succ (Nat.lt_of_lt_of_le hlt hn)) (p.after text)
    refine ⟨⟨⟨l, p⟩ :: t.tokens, t.finish⟩, ?_, by simp [hls]⟩
    rw [tokensFrom_of_munch? hm, ht]
    rfl
  | @skip s text rest ls hm _ ih =>
    have hlt := length_rest_lt hm
    obtain ⟨n, rfl⟩ : ∃ k, n = k + 1 := ⟨n - 1, by omega⟩
    obtain ⟨t, ht, hls⟩ := ih (Nat.le_of_lt_succ (Nat.lt_of_lt_of_le hlt hn)) (p.after text)
    refine ⟨t, ?_, hls⟩
    rw [tokensFrom_of_munch? hm, ht]
    rfl

section Munch

variable {b : UInt8} {s rest : Bytes} {ls : List Lexeme}

theorem munch?_cons (hc : b ≠ 35) (ha : b ≠ 45) : munch? (b :: s) =
    if Bytes.isLetter b then
      some ⟨some (.ident (b :: s.takeWhile isNameByte)), b :: s.takeWhile isNameByte, s.dropWhile isNameByte⟩
    else if Bytes.isDigit b then
      some ⟨some (.int (b :: s.takeWhile Bytes.isDigit)), b :: s.takeWhile Bytes.isDigit, s.dropWhile Bytes.isDigit⟩
    else match mark? b with
      | some m => some ⟨some m, [b], s⟩
      | none => if isBlank b then some ⟨none, b :: s.takeWhile isBlank, s.dropWhile isBlank⟩ else none := by
  exact munch?.eq_4 b s hc fun _ hb _ => ha hb

theorem munch?_letter (hb : Bytes.isLetter b = true) : munch? (b :: s) =
    some ⟨some (.ident (b :: s.takeWhile isNameByte)), b :: s.takeWhile isNameByte, s.dropWhile isNameByte⟩ := by
  have hne (c : UInt8) (hc : Bytes.isLetter c = false) : b ≠ c := by
    rintro rfl
    simp [hb] at hc
  rw [munch?_cons (hne 35 rfl) (hne 45 rfl), if_pos hb]

theorem isLetter_eq_false_of_isDigit (hb : Bytes.isDigit b = true) : Bytes.isLetter b = false := by
  simp only [Bytes.isDigit, Bytes.isLetter, Bool.and_eq_true, decide_eq_true_eq, Bool.or_eq_false_iff,
    Bool.and_eq_false_iff, decide_eq_false_iff_not, beq_eq_false_iff_ne, UInt8.le_iff_toNat_le, ne_eq,
    ← UInt8.toNat_inj, UInt8.toNat_ofNat] at hb ⊢
  omega

theorem munch?_digit (hb : Bytes.isDigit b = true) : munch? (b :: s) =
    some ⟨some (.int (b :: s.takeWhile Bytes.isDigit)), b :: s.takeWhile Bytes.isDigit, s.dropWhile Bytes.isDigit⟩ := by
  have hne (c : UInt8) (hc : Bytes.isDigit c = false) : b ≠ c := by
    rintro rfl
    simp [hb] at hc
  rw [munch?_cons (hne 35 rfl) (hne 45 rfl), if_neg (by simp [isLetter_eq_false_of_isDigit hb]), if_pos hb]

theorem munch?_blank (hb : isBlank b = true) : munch? (b :: s) =
    some ⟨none, b :: s.takeWhile isBlank, s.dropWhile isBlank⟩ := by
  simp only [isBlank, Bool.or_eq_true, beq_iff_eq] at hb
  obtain ((rfl | rfl) | rfl) | rfl := hb <;> rfl

theorem munch?_mark {m : Lexeme} (hb : mark? b = some m) : munch? (b :: s) = some ⟨some m, [b], s⟩ := by
  revert hb
  fun_cases mark? b <;> rintro ⟨⟩ <;> rfl

end Munch

def Apart (rest : Bytes) : Prop := ∀ b ∈ rest.head?, isNameByte b = false

theorem apart_cons {b : UInt8} {rest : Bytes} (hb : isNameByte b = false) : Apart (b :: rest) := by
  rintro c ⟨⟩
  exact hb

theorem span_append {p : UInt8 → Bool} {name rest : Bytes} (hn : name.all p = true)
    (hr : ∀ b ∈ rest.head?, p b = false) : (name ++ rest).takeWhile p = name ∧ (name ++ rest).dropWhile p = rest := by
  have hall : ∀ b ∈ name, p b = true := List.all_eq_true.mp hn
  rw [List.takeWhile_append_of_pos hall, List.dropWhile_append_of_pos hall]
  cases rest with
  | nil => simp
  | cons b rest => simp [hr b rfl]

def isWord (name : Bytes) : Bool := isIdentifier name || isNumeral name

def word (name : Bytes) : Lexeme := if HeapDef.startsWithDigit name then .int name else .ident name

theorem startsWithDigit_of_identifier {name : Bytes} (hn : isIdentifier name = true) :
    HeapDef.startsWithDigit name = false := by
  cases name with
  | nil => rfl
  | cons b name =>
    cases hb : Bytes.isDigit b with
    | false => simpa [HeapDef.startsWithDigit] using hb
    | true => simp [isIdentifier, isLetter_eq_false_of_isDigit hb] at hn

theorem startsWithDigit_of_numeral {name : Bytes} (hn : isNumeral name = true) :
    HeapDef.startsWithDigit name = true := by
  cases name with
  | nil => cases hn
  | cons b name => simpa [HeapDef.startsWithDigit] using (Bool.and_eq_true_iff.mp hn).1

def nameLexemes : List Bytes → List Lexeme
  | [] => []
  | x :: xs => .ident x :: xs.flatMap (fun y => [.comma, .ident y])

namespace Statement

def lexemes : Statement → List Lexeme
  | .nodes names type => .ident "nodes" :: (nameLexemes names ++ [.colon, .ident type])
  | .ext names => .ident "ext" :: nameLexemes names
  | .selector source s target => [word source, .dot, .ident s, .arrow, .ident target]
  | .variable name target => [word name, .arrow, .ident target]
  | .hyperedge label tentacles => word label :: .lparen :: (nameLexemes tentacles ++ [.rparen])

def text : Statement → Bytes
  | .nodes names type => "nodes " ++ Heap.commaSeparated names ++ " : " ++ type
  | .ext names => "ext " ++ Heap.commaSeparated names
  | .selector source s target => source ++ "." ++ s ++ " -> " ++ target
  | .variable name target => name ++ " -> " ++ target
  | .hyperedge label tentacles => label ++ "(" ++ Heap.commaSeparated tentacles ++ ")"

def isSpellable : Statement → Bool
  | .nodes names type => !names.isEmpty && (names.all isIdentifier && isIdentifier type)
  | .ext names => !names.isEmpty && names.all isIdentifier
  | .selector source s target => isWord source && (isIdentifier s && isIdentifier target)
  | .variable name target => isWord name && isIdentifier target
  | .hyperedge label tentacles => isWord label && tentacles.all isIdentifier

end Statement

namespace Lexes

variable {b : UInt8} {name rest : Bytes} {ls : List Lexeme}

theorem blank (hl : Lexes rest ls) (hb : isBlank b = true) : Lexes (b :: rest) ls := by
  refine .skip (munch?_blank hb) ?_
  cases rest with
  | nil => exact hl
  | cons c rest =>
    by_cases hc : isBlank c = true
    · rw [List.dropWhile_cons_of_pos hc]
      cases hl with
      | token hm _ => simp [munch?_blank hc] at hm
      | skip hm hl =>
        rw [munch?_blank hc] at hm
        cases hm
        exact hl
    · rwa [List.dropWhile_cons_of_neg hc]

theorem mark {m : Lexeme} (hl : Lexes rest ls) (hb : mark? b = some m) : Lexes (b :: rest) (m :: ls) :=
  .token (munch?_mark hb) hl

theorem arrow (hl : Lexes rest ls) : Lexes (45 :: 62 :: rest) (.arrow :: ls) := .token rfl hl

theorem comment (hl : Lexes (10 :: rest) ls) (hn : 10 ∉ name) : Lexes (35 :: (name ++ 10 :: rest)) ls := by
  have hall : ∀ c ∈ name, (c != 10) = true := fun c hc => bne_iff_ne.mpr fun h => hn (h ▸ hc)
  have hdrop : (name ++ 10 :: rest).dropWhile (· != 10) = 10 :: rest := by
    rw [List.dropWhile_append_of_pos hall, List.dropWhile_cons_of_neg (by simp)]
  have hm : munch? (35 :: (name ++ 10 :: rest)) = some ⟨none, _, (name ++ 10 :: rest).dropWhile (· != 10)⟩ := rfl
  exact .skip (hdrop ▸ hm) hl

theorem ident (hl : Lexes rest ls) (hn : isIdentifier name = true) (hr : Apart rest) :
    Lexes (name ++ rest) (.ident name :: ls) := by
  cases name with
  | nil => cases hn
  | cons b name =>
    obtain ⟨hb, hn⟩ := Bool.and_eq_true_iff.mp hn
    obtain ⟨htake, hdrop⟩ := span_append hn hr
    have hm : munch? (b :: (name ++ rest)) = some ⟨some (.ident (b :: name)), b :: name, rest⟩ := by
      rw [munch?_letter hb, htake, hdrop]
    exact .token hm hl

theorem int (hl : Lexes rest ls) (hn : isNumeral name = true) (hr : Apart rest) :
    Lexes (name ++ rest) (.int name :: ls) := by
  cases name with
  | nil => cases hn
  | cons b name =>
    obtain ⟨hb, hn⟩ := Bool.and_eq_true_iff.mp hn
    obtain ⟨htake, hdrop⟩ := span_append hn fun c hc => (Bool.or_eq_false_iff.mp (hr c hc)).2
    have hm : munch? (b :: (name ++ rest)) = some ⟨some (.int (b :: name)), b :: name, rest⟩ := by
      rw [munch?_digit hb, htake, hdrop]
    exact .token hm hl

theorem word (hl : Lexes rest ls) (hn : isWord name = true) (hr : Apart rest) :
    Lexes (name ++ rest) (word name :: ls) := by
  rcases Bool.or_eq_true_iff.mp hn with hn | hn
  · rw [HeapFile.word, startsWithDigit_of_identifier hn]
    exact hl.ident hn hr
  · rw [HeapFile.word, startsWithDigit_of_numeral hn]
    exact hl.int hn hr

theorem spacedArrow (hl : Lexes rest ls) : Lexes (" -> " ++ rest) (.arrow :: ls) :=
  ((hl.blank rfl).arrow).blank rfl

theorem names {xs : List Bytes} (hl : Lexes rest ls) (hx : xs.all isIdentifier = true) (hr : Apart rest) :
    Lexes (Heap.commaSeparated xs ++ rest) (nameLexemes xs ++ ls) := by
  induction xs with
  | nil => exact hl
  | cons x xs ih =>
    simp only [List.all_cons, Bool.and_eq_true] at hx
    cases xs with
    | nil => simpa [Heap.commaSeparated, nameLexemes] using hl.ident hx.1 hr
    | cons y ys =>
      have htext : Heap.commaSeparated (x :: y :: ys) ++ rest =
          x ++ (44 :: 32 :: (Heap.commaSeparated (y :: ys) ++ rest)) := by
        rw [Heap.commaSeparated, List.intercalate_cons_cons, List.append_assoc, List.append_assoc]
        rfl
      rw [htext]
      exact ((ih hx.2).blank rfl |>.mark rfl).ident hx.1 (apart_cons rfl)

theorem keyword {k : Bytes} (hl : Lexes rest ls) (hk : isIdentifier k = true) :
    Lexes ((k ++ [32]) ++ rest) (.ident k :: ls) := by
  rw [List.append_assoc]
  exact (hl.blank rfl).ident hk (apart_cons rfl)

theorem statement {s : Statement} (hl : Lexes rest ls) (hs : s.isSpellable = true) (hr : Apart rest) :
    Lexes (s.text ++ rest) (s.lexemes ++ ls) := by
  cases s with
  | nodes xs type =>
    simp only [Statement.isSpellable, Bool.and_eq_true] at hs
    obtain ⟨-, hxs, ht⟩ := hs
    have htype : Lexes (" : " ++ (type ++ rest)) (.colon :: .ident type :: ls) :=
      (((hl.ident ht hr).blank rfl).mark rfl).blank rfl
    have hall := (htype.names hxs (apart_cons rfl)).keyword (k := "nodes") rfl
    simp only [Statement.text, Statement.lexemes, List.append_assoc, List.cons_append, List.nil_append]
    exact hall
  | ext xs =>
    simp only [Statement.isSpellable, Bool.and_eq_true] at hs
    have hall := (hl.names hs.2 hr).keyword (k := "ext") rfl
    simp only [Statement.text, Statement.lexemes, List.append_assoc, List.cons_append]
    exact hall
  | selector source f target =>
    simp only [Statement.isSpellable, Bool.and_eq_true] at hs
    obtain ⟨hsource, hf, ht⟩ := hs
    have harrow := ((hl.ident ht hr).spacedArrow).ident hf (apart_cons rfl)
    have hall : Lexes (source ++ 46 :: _) _ := (harrow.mark rfl).word hsource (apart_cons rfl)
    simp only [Statement.text, Statement.lexemes, List.append_assoc, List.cons_append, List.nil_append]
    exact hall
  | «variable» name target =>
    simp only [Statement.isSpellable, Bool.and_eq_true] at hs
    have hall := ((hl.ident hs.2 hr).spacedArrow).word hs.1 (apart_cons rfl)
    simp only [Statement.text, Statement.lexemes, List.append_assoc, List.cons_append, List.nil_append]
    exact hall
  | hyperedge label xs =>
    simp only [Statement.isSpellable, Bool.and_eq_true] at hs
    have hclose : Lexes (41 :: rest) (.rparen :: ls) := hl.mark rfl
    have hopen : Lexes (40 :: _) (.lparen :: _) := (hclose.names hs.2 (apart_cons rfl)).mark rfl
    have hall := hopen.word hs.1 (apart_cons rfl)
    simp only [Statement.text, Statement.lexemes, List.append_assoc, List.cons_append, List.nil_append]
    exact hall

end Lexes

end HeapAbstraction.HeapFile
