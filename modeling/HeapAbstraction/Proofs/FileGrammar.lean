import HeapAbstraction.Proofs.Lexing

namespace HeapAbstraction.HeapFile

def numberOf (base : Nat) (digits : Bytes) : Nat := digits.foldl (fun n b => n * base + (b.toNat - 48)) 0

def IsDigitOf (base : Nat) (b : UInt8) : Prop := 48 ≤ b.toNat ∧ b.toNat < 48 + base

inductive RankLiteral : Bytes → Int → Prop
  | octal {digits} : (∀ b ∈ digits, IsDigitOf 8 b) → numberOf 8 digits < 0x80000000 →
      RankLiteral (48 :: digits) (numberOf 8 digits)
  | decimal {b digits} : b ≠ 48 → (∀ c ∈ b :: digits, IsDigitOf 10 c) → numberOf 10 (b :: digits) < 0x80000000 →
      RankLiteral (b :: digits) (numberOf 10 (b :: digits))

inductive DerivesNames : List Lexeme → List Bytes → Prop
  | one {x} : DerivesNames [.ident x] [x]
  | more {x ls xs} : DerivesNames ls xs → DerivesNames (.ident x :: .comma :: ls) (x :: xs)

inductive DerivesWord : Lexeme → Bytes → Prop
  | ident {x} : DerivesWord (.ident x) x
  | int {x} : DerivesWord (.int x) x

inductive DerivesStatement : List Lexeme → Statement → Prop
  | nodes {ls names type} : DerivesNames ls names →
      DerivesStatement (.ident "nodes" :: (ls ++ [.colon, .ident type])) (.nodes names type)
  | ext {ls names} : DerivesNames ls names → DerivesStatement (.ident "ext" :: ls) (.ext names)
  | selector {w source s target} : DerivesWord w source →
      DerivesStatement [w, .dot, .ident s, .arrow, .ident target] (.selector source s target)
  | variable {w name target} : DerivesWord w name → DerivesStatement [w, .arrow, .ident target] (.variable name target)
  | bare {w label} : DerivesWord w label → DerivesStatement [w, .lparen, .rparen] (.hyperedge label [])
  | hyperedge {w label ls tentacles} : DerivesWord w label → DerivesNames ls tentacles →
      DerivesStatement (w :: .lparen :: (ls ++ [.rparen])) (.hyperedge label tentacles)

inductive DerivesBody : List Lexeme → List Statement → Prop
  | nil : DerivesBody [] []
  | cons {ls ls' s ss} : DerivesStatement ls s → DerivesBody ls' ss → DerivesBody (ls ++ ls') (s :: ss)

inductive DerivesDeclaration : List Lexeme → Declaration → Prop
  | nonterminal {label digits rank} : RankLiteral digits rank →
      DerivesDeclaration [.ident "nonterminal", .ident label, .slash, .int digits] (.nonterminal label rank)
  | rule {label ls body} : DerivesBody ls body →
      DerivesDeclaration (.ident "rule" :: .ident label :: .lbrace :: (ls ++ [.rbrace])) (.rule label body)
  | heap {ls body} : DerivesBody ls body → DerivesDeclaration (.ident "heap" :: .lbrace :: (ls ++ [.rbrace])) (.heap body)

inductive Derives : List Lexeme → List Declaration → Prop
  | nil : Derives [] []
  | cons {ls ls' d ds} : DerivesDeclaration ls d → Derives ls' ds → Derives (ls ++ ls') (d :: ds)

variable {ls : List Lexeme} {base : Nat} {digits : Bytes}

theorem numberOf_concat (digits : Bytes) (b : UInt8) :
    numberOf base (digits ++ [b]) = numberOf base digits * base + (b.toNat - 48) := List.foldl_append

theorem numberOf_le_append (hb : 0 < base) (done digits : Bytes) : numberOf base done ≤ numberOf base (done ++ digits) := by
  induction digits generalizing done with
  | nil => simp
  | cons b digits ih =>
    rw [List.append_cons]
    refine Nat.le_trans ?_ (ih (done ++ [b]))
    rw [numberOf_concat]
    exact Nat.le_trans (Nat.le_mul_of_pos_right _ hb) (Nat.le_add_right _ _)

theorem readDigits_iff (hb : 0 < base) (done : Bytes) (hd : numberOf base done < 0x100000000) {n : Nat} :
    readDigits base (numberOf base done) digits = .ok n ↔
      (∀ b ∈ digits, b.toNat - 48 < base) ∧ numberOf base (done ++ digits) = n ∧ n < 0x100000000 := by
  induction digits generalizing done with
  | nil =>
    rw [readDigits, List.append_nil, Except.ok.injEq]
    constructor
    · rintro rfl
      exact ⟨by simp, rfl, hd⟩
    · exact fun h => h.2.1
  | cons b digits ih =>
    have hnext : numberOf base (done ++ [b]) = _ := numberOf_concat done b
    rw [readDigits, List.append_cons, List.forall_mem_cons]
    by_cases hdigit : base ≤ b.toNat - 48
    · simp [hdigit, Nat.not_lt.mpr hdigit]
    · by_cases hbig : 0x100000000 ≤ numberOf base (done ++ [b])
      · have hle := numberOf_le_append hb (done ++ [b]) digits
        rw [if_neg hdigit, if_pos (hnext ▸ hbig)]
        simp only [reduceCtorEq, false_iff, not_and]
        intro _ hn
        omega
      · rw [if_neg hdigit, if_neg (hnext ▸ hbig), ← hnext, ih _ (Nat.not_le.mp hbig)]
        simp [Nat.not_le.mp hdigit]

section Rank

variable {b : UInt8} {rank : Int}

theorem readNumber_iff (hb : 0 < base) :
    (readDigits base 0 digits >>= fun n => if 0x80000000 ≤ n then .error .outOfRange else pure (n : Int)) = .ok rank ↔
      (∀ b ∈ digits, b.toNat - 48 < base) ∧ numberOf base digits < 0x80000000 ∧ rank = numberOf base digits := by
  have hread (n : Nat) : readDigits base 0 digits = .ok n ↔ _ ∧ numberOf base digits = n ∧ n < 0x100000000 :=
    readDigits_iff hb [] (show 0 < 0x100000000 by decide)
  cases hd : readDigits base 0 digits with
  | error e =>
    simp only [bind, Except.bind, reduceCtorEq, false_iff]
    rintro ⟨hdigits, hlt, -⟩
    have hok := (hread _).mpr ⟨hdigits, rfl, by omega⟩
    simp [hd] at hok
  | ok n =>
    obtain ⟨hdigits, rfl, -⟩ := (hread n).mp hd
    simp only [bind, Except.bind]
    split
    · simp only [reduceCtorEq, false_iff]
      omega
    · simp only [pure, Except.pure, Except.ok.injEq]
      constructor
      · rintro rfl
        exact ⟨hdigits, by omega, rfl⟩
      · exact fun h => h.2.2.symm

theorem readRank_octal_iff : readRank (48 :: digits) = .ok rank ↔
    (∀ b ∈ digits, b.toNat - 48 < 8) ∧ numberOf 8 digits < 0x80000000 ∧ rank = numberOf 8 digits :=
  readNumber_iff (by decide)

theorem readRank_decimal_iff (hb : b ≠ 48) : readRank (b :: digits) = .ok rank ↔
    (∀ c ∈ b :: digits, c.toNat - 48 < 10) ∧ numberOf 10 (b :: digits) < 0x80000000 ∧
      rank = numberOf 10 (b :: digits) := by
  rw [readRank.eq_2 _ (fun rest h => hb (List.cons.inj h).1)]
  exact readNumber_iff (by decide)

theorem IsDigitOf.sub_lt (hb : IsDigitOf base b) : b.toNat - 48 < base := by
  simp only [IsDigitOf] at hb
  omega

theorem isDigitOf_of_isDigit (hb : Bytes.isDigit b = true) : IsDigitOf 10 b := by
  simp only [Bytes.isDigit, Bool.and_eq_true, decide_eq_true_eq, UInt8.le_iff_toNat_le, UInt8.toNat_ofNat] at hb
  exact ⟨hb.1, by omega⟩

theorem readRank_of_rankLiteral (hr : RankLiteral digits rank) : readRank digits = .ok rank := by
  cases hr with
  | octal hd hn => exact readRank_octal_iff.mpr ⟨fun b hb => (hd b hb).sub_lt, hn, rfl⟩
  | decimal hb hd hn => exact (readRank_decimal_iff hb).mpr ⟨fun c hc => (hd c hc).sub_lt, hn, rfl⟩

theorem rankLiteral_of_readRank (hn : isNumeral digits = true) (hr : readRank digits = .ok rank) :
    RankLiteral digits rank := by
  cases digits with
  | nil => cases hn
  | cons b digits =>
    have hall : ∀ c ∈ b :: digits, 48 ≤ c.toNat := by
      rw [isNumeral, Bool.and_eq_true] at hn
      have hmem : ∀ c ∈ b :: digits, Bytes.isDigit c = true :=
        List.forall_mem_cons.mpr ⟨hn.1, List.all_eq_true.mp hn.2⟩
      exact fun c hc => (isDigitOf_of_isDigit (hmem c hc)).1
    have hof {base : Nat} {c : UInt8} (hc : 48 ≤ c.toNat) (hlt : c.toNat - 48 < base) : IsDigitOf base c := ⟨hc, by omega⟩
    by_cases hb : b = 48
    · subst hb
      obtain ⟨hd, hlt, rfl⟩ := readRank_octal_iff.mp hr
      exact .octal (fun c hc => hof (hall c (List.mem_cons_of_mem _ hc)) (hd c hc)) hlt
    · obtain ⟨hd, hlt, rfl⟩ := (readRank_decimal_iff hb).mp hr
      exact .decimal hb (fun c hc => hof (hall c hc) (hd c hc)) hlt

end Rank

theorem derivesNames_cons (x : Bytes) (xs : List Bytes) : DerivesNames (nameLexemes (x :: xs)) (x :: xs) := by
  induction xs generalizing x with
  | nil => exact .one
  | cons y ys ih => exact .more (ih y)

theorem DerivesNames.exists_cons {names : List Bytes} (hd : DerivesNames ls names) :
    ∃ x xs, names = x :: xs ∧ ls = nameLexemes (x :: xs) := by
  induction hd with
  | one => exact ⟨_, [], rfl, rfl⟩
  | more _ ih =>
    obtain ⟨y, ys, rfl, rfl⟩ := ih
    exact ⟨_, y :: ys, rfl, rfl⟩

theorem derivesWord_word (x : Bytes) : DerivesWord (word x) x := by
  rw [word]
  split
  · exact .int
  · exact .ident

theorem DerivesWord.ne_comma {w : Lexeme} {x : Bytes} (hw : DerivesWord w x) : w ≠ .comma := by
  cases hw <;> simp

theorem DerivesStatement.exists_lexeme {s : Statement} (hd : DerivesStatement ls s) : ∃ l rest, ls = l :: rest ∧ l ≠ .comma := by
  cases hd with
  | nodes _ => exact ⟨_, _, rfl, by simp⟩
  | ext _ => exact ⟨_, _, rfl, by simp⟩
  | selector hw => exact ⟨_, _, rfl, hw.ne_comma⟩
  | «variable» hw => exact ⟨_, _, rfl, hw.ne_comma⟩
  | bare hw => exact ⟨_, _, rfl, hw.ne_comma⟩
  | hyperedge hw _ => exact ⟨_, _, rfl, hw.ne_comma⟩

theorem DerivesBody.length_le {body : List Statement} (hd : DerivesBody ls body) : body.length ≤ ls.length := by
  induction hd with
  | nil => exact Nat.le_refl _
  | cons hs _ ih =>
    obtain ⟨l, rest, rfl, -⟩ := hs.exists_lexeme
    simp only [List.length_append, List.length_cons]
    omega

theorem DerivesDeclaration.ne_nil {d : Declaration} (hd : DerivesDeclaration ls d) : ls ≠ [] := by
  cases hd <;> simp

theorem Derives.length_le {ds : List Declaration} (hd : Derives ls ds) : ds.length ≤ ls.length := by
  induction hd with
  | nil => exact Nat.le_refl _
  | cons hd _ ih =>
    have := List.length_pos_iff.mpr hd.ne_nil
    simp only [List.length_append, List.length_cons]
    omega

end HeapAbstraction.HeapFile
