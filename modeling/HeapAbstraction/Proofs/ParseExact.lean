import HeapAbstraction.Proofs.Edit
import HeapAbstraction.Proofs.Printing
import HeapAbstraction.Proofs.LexRules

namespace HeapAbstraction.HeapFile

variable {finish : Position} {ts rest : List Token} {ls : List Lexeme} {s : Statement}

theorem lexemes_of_moreNames {xs : List Bytes} (hm : moreNames ts = (xs, rest)) :
    ts.map Token.lexeme = xs.flatMap (fun y => [.comma, .ident y]) ++ rest.map Token.lexeme := by
  fun_induction moreNames ts generalizing xs with
  | case1 p x q ts xs rest hmore ih =>
    cases hm
    simp [ih hmore]
  | case2 ts =>
    cases hm
    rfl

def Reads {α : Type} (derives : List Lexeme → α → Prop) (ts : List Token) (a : α) (rest : List Token) : Prop :=
  ∃ ls, derives ls a ∧ ts.map Token.lexeme = ls ++ rest.map Token.lexeme

theorem reads_of_parseNodes : parseNodes finish ts = .done s rest → Reads DerivesStatement ts s rest := by
  fun_cases parseNodes finish ts with
  | case1 p x q ts xs p' type q' rest hm =>
    rintro ⟨⟩
    refine ⟨_, .nodes (derivesNames_cons x xs), ?_⟩
    simp [lexemes_of_moreNames hm, nameLexemes]
  | _ => rintro ⟨⟩

theorem reads_of_parseExt : parseExt ts = .done s rest → Reads DerivesStatement ts s rest := by
  fun_cases parseExt ts with
  | case1 p x q ts xs rest hm =>
    rintro ⟨⟩
    refine ⟨_, .ext (derivesNames_cons x xs), ?_⟩
    simp [lexemes_of_moreNames hm, nameLexemes]
  | _ => rintro ⟨⟩

theorem reads_of_parseElementTail {name : Bytes} {w : Lexeme} {p : Position} (hw : DerivesWord w name) :
    parseElementTail finish name ts = .done s rest → Reads DerivesStatement (⟨w, p⟩ :: ts) s rest := by
  fun_cases parseElementTail finish name ts with
  | case1 =>
    rintro ⟨⟩
    exact ⟨_, .selector hw, rfl⟩
  | case4 =>
    rintro ⟨⟩
    exact ⟨_, .variable hw, rfl⟩
  | case5 =>
    rintro ⟨⟩
    exact ⟨_, .bare hw, rfl⟩
  | case6 p x q ts xs p' rest hm =>
    rintro ⟨⟩
    refine ⟨_, .hyperedge hw (derivesNames_cons x xs), ?_⟩
    simp [lexemes_of_moreNames hm, nameLexemes]
  | _ => rintro ⟨⟩

theorem reads_of_parseElement : parseElement finish ts = .done s rest → Reads DerivesStatement ts s rest := by
  fun_cases parseElement finish ts with
  | case1 x p ts => exact reads_of_parseElementTail .ident
  | case2 x p ts => exact reads_of_parseElementTail .int
  | case3 => rintro ⟨⟩

theorem reads_of_parseStatement (hp : parseStatement finish ts = .done s rest) : Reads DerivesStatement ts s rest := by
  rw [parseStatement] at hp
  split at hp
  · split at hp
    · exact reads_of_parseElement hp
    · exact reads_of_parseExt hp
  · exact reads_of_parseNodes hp

theorem Reads.nil : Reads DerivesBody ts [] ts := ⟨[], .nil, rfl⟩

theorem Reads.cons {rest' : List Token} {ss : List Statement} (hs : Reads DerivesStatement ts s rest)
    (hss : Reads DerivesBody rest ss rest') : Reads DerivesBody ts (s :: ss) rest' := by
  obtain ⟨ls, hls, ht⟩ := hs
  obtain ⟨ls', hls', ht'⟩ := hss
  exact ⟨ls ++ ls', .cons hls hls', by rw [ht, ht', List.append_assoc]⟩

theorem reads_of_parseStatements {n : Nat} {body : List Statement}
    (hp : parseStatements finish n ts = .ok (body, rest)) : Reads DerivesBody ts body rest := by
  induction n generalizing ts body with
  | zero =>
    cases hp
    exact .nil
  | succ n ih =>
    rw [parseStatements] at hp
    split at hp
    · rename_i hs
      obtain ⟨⟨ss, rest'⟩, hss, hp⟩ := bind_ok hp
      cases hp
      exact (reads_of_parseStatement hs).cons (ih hss)
    · cases hp
      exact .nil
    · cases hp

theorem exists_of_parseBody {body : List Statement} (hp : parseBody finish ts = .ok (body, rest)) :
    ∃ ls, DerivesBody ls body ∧ ts.map Token.lexeme = ls ++ .rbrace :: rest.map Token.lexeme := by
  obtain ⟨⟨body', rest'⟩, hbody, hp⟩ := bind_ok hp
  dsimp only at hp
  split at hp
  · cases hp
    exact reads_of_parseStatements hbody
  · cases hp

theorem exists_of_ofBody {f : List Statement → Declaration} {d : Declaration}
    (hp : Attempt.ofBody f (parseBody finish ts) = .done d rest) :
    ∃ ls body, d = f body ∧ DerivesBody ls body ∧ ts.map Token.lexeme = ls ++ .rbrace :: rest.map Token.lexeme := by
  cases hb : parseBody finish ts with
  | error e =>
    rw [hb] at hp
    cases hp
  | ok r =>
    obtain ⟨body, rest'⟩ := r
    rw [hb] at hp
    cases hp
    obtain ⟨ls, hls, ht⟩ := exists_of_parseBody hb
    exact ⟨ls, body, rfl, hls, ht⟩

section Declarations

variable {d : Declaration} (hn : ∀ digits, .int digits ∈ ts.map Token.lexeme → isNumeral digits = true)

include hn in
theorem reads_of_parseNonterminal {p : Position} : parseNonterminal finish ts = .done d rest →
    Reads DerivesDeclaration (⟨.ident "nonterminal", p⟩ :: ts) d rest := by
  fun_cases parseNonterminal finish ts with
  | case1 label p₁ p₂ digits p₃ rest rank hr =>
    rintro ⟨⟩
    exact ⟨_, .nonterminal (rankLiteral_of_readRank (hn digits (by simp)) hr), rfl⟩
  | _ => rintro ⟨⟩

theorem reads_of_parseRule {p : Position} : parseRule finish ts = .done d rest →
    Reads DerivesDeclaration (⟨.ident "rule", p⟩ :: ts) d rest := by
  fun_cases parseRule finish ts with
  | case1 label p₁ p₂ ts =>
    intro hp
    obtain ⟨ls, body, rfl, hls, ht⟩ := exists_of_ofBody hp
    exact ⟨_, .rule hls, by simp [ht]⟩
  | _ => rintro ⟨⟩

theorem reads_of_parseHeapBody {p : Position} : parseHeapBody finish ts = .done d rest →
    Reads DerivesDeclaration (⟨.ident "heap", p⟩ :: ts) d rest := by
  fun_cases parseHeapBody finish ts with
  | case1 p₁ ts =>
    intro hp
    obtain ⟨ls, body, rfl, hls, ht⟩ := exists_of_ofBody hp
    exact ⟨_, .heap hls, by simp [ht]⟩
  | _ => rintro ⟨⟩

include hn

theorem reads_of_parseDeclaration : parseDeclaration finish ts = .done d rest → Reads DerivesDeclaration ts d rest := by
  fun_cases parseDeclaration finish ts with
  | case1 p ts => exact reads_of_parseNonterminal fun digits hm => hn digits (by simp [hm])
  | case2 p ts => exact reads_of_parseRule
  | case3 p ts => exact reads_of_parseHeapBody
  | _ => rintro ⟨⟩

theorem derives_of_parseDeclarations {n : Nat} {ds : List Declaration} (hp : parseDeclarations finish n ts = .ok ds) :
    Derives (ts.map Token.lexeme) ds := by
  induction n generalizing ts ds with
  | zero =>
    rw [parseDeclarations] at hp
    split at hp
    · rename_i he
      cases hp
      rw [List.isEmpty_iff.mp he]
      exact .nil
    · cases hp
  | succ n ih =>
    rw [parseDeclarations] at hp
    split at hp
    · rename_i hd
      obtain ⟨ds', hds, hp⟩ := bind_ok hp
      cases hp
      obtain ⟨ls, hls, ht⟩ := reads_of_parseDeclaration hn hd
      rw [ht] at hn ⊢
      exact .cons hls (ih (fun digits hm => hn digits (List.mem_append_right _ hm)) hds)
    · split at hp
      · rename_i he
        cases hp
        rw [List.isEmpty_iff.mp he]
        exact .nil
      · cases hp
    · cases hp

end Declarations

inductive Spaced : Bytes → List Lexeme → Prop
  | nil : Spaced [] []
  | blank {b text ls} : isBlank b = true → Spaced text ls → Spaced (b :: text) ls
  | lexeme {l text ls} : Spaced text ls → (∀ b ∈ text.head?, isBlank b = true) → Spaced (l.text ++ text) (l :: ls)

def Lexeme.isSpelled : Lexeme → Bool
  | .ident x => isIdentifier x
  | .int x => isNumeral x
  | _ => true

theorem isNameByte_of_isBlank {b : UInt8} (hb : isBlank b = true) : isNameByte b = false := by
  simp only [isBlank, Bool.or_eq_true, beq_iff_eq] at hb
  obtain ((rfl | rfl) | rfl) | rfl := hb <;> rfl

theorem lexes_of_spaced {text : Bytes} (hs : Spaced text ls) (hl : ∀ l ∈ ls, l.isSpelled = true) : Lexes text ls := by
  induction hs with
  | nil => exact .nil
  | blank hb _ ih => exact (ih hl).blank hb
  | @lexeme l text ls _ hhead ih =>
    obtain ⟨hspelled, hls⟩ := List.forall_mem_cons.mp hl
    have hrest := ih hls
    have hapart : Apart text := fun b hb => isNameByte_of_isBlank (hhead b hb)
    cases l with
    | ident x => exact hrest.ident hspelled hapart
    | int x => exact hrest.int hspelled hapart
    | arrow => exact hrest.arrow
    | _ => exact hrest.mark rfl

namespace Declaration

def lexemes : Declaration → List Lexeme
  | .nonterminal label rank => [.ident "nonterminal", .ident label, .slash, .int (Bytes.ofNat rank.toNat)]
  | .rule label body => .ident "rule" :: .ident label :: .lbrace :: (body.flatMap Statement.lexemes ++ [.rbrace])
  | .heap body => heapLexemes body

def isSpellable : Declaration → Bool
  | .nonterminal label rank => isIdentifier label && (decide (0 ≤ rank) && decide (rank < 0x80000000))
  | .rule label body => isIdentifier label && body.all Statement.isSpellable
  | .heap body => body.all Statement.isSpellable

end Declaration

theorem numberOf_ofNat (n : Nat) : numberOf 10 (Bytes.ofNat n) = n := by
  have hfold (cs : List Char) (hcs : ∀ c ∈ cs, c.isDigit = true) (m : Nat) :
      (cs.map Char.toUInt8).foldl (fun n b => n * 10 + (b.toNat - 48)) m = Nat.ofDigitChars 10 cs m := by
    induction cs generalizing m with
    | nil => rfl
    | cons c cs ih =>
      obtain ⟨hc, hcs⟩ := List.forall_mem_cons.mp hcs
      rw [List.map_cons, List.foldl_cons, (Bytes.isDigit_toUInt8 hc).2, ih hcs, Nat.mul_comm]
      rfl
  rw [numberOf, Bytes.ofNat, hfold _ fun c hc => Nat.isDigit_of_mem_toDigits (by omega) (by omega) hc]
  exact Nat.ofDigitChars_toDigits (by omega) (by omega)

theorem isNumeral_ofNat (n : Nat) : isNumeral (Bytes.ofNat n) = true := by
  cases hn : Bytes.ofNat n with
  | nil => exact absurd (List.map_eq_nil_iff.mp hn) Nat.toDigits_ne_nil
  | cons b digits =>
    have hall : ∀ c ∈ b :: digits, Bytes.isDigit c = true := fun c hc => Bytes.isDigit_of_mem_ofNat (hn ▸ hc)
    obtain ⟨hb, hdigits⟩ := List.forall_mem_cons.mp hall
    exact Bool.and_eq_true_iff.mpr ⟨hb, List.all_eq_true.mpr hdigits⟩

theorem head?_ofNat {n : Nat} (hn : 0 < n) : (Bytes.ofNat n).head? ≠ some 48 := by
  have hsmall : ∀ n < 10, 0 < n → ([n.digitChar].map Char.toUInt8).head? ≠ some 48 := by decide
  induction n using Nat.strongRecOn with
  | ind n ih =>
    by_cases hlt : n < 10
    · rw [Bytes.ofNat, Nat.toDigits_of_lt_base hlt]
      exact hsmall n hlt hn
    · have hstep : Bytes.ofNat n = Bytes.ofNat (n / 10) ++ [(n % 10).digitChar.toUInt8] := by
        rw [Bytes.ofNat, Nat.toDigits_of_base_le (by omega) (by omega), List.map_append]
        rfl
      have hhead := ih (n / 10) (by omega) (by omega)
      cases hq : Bytes.ofNat (n / 10) with
      | nil => exact absurd (List.map_eq_nil_iff.mp hq) Nat.toDigits_ne_nil
      | cons b digits =>
        rw [hstep, hq, List.cons_append]
        rwa [hq] at hhead

theorem rankLiteral_ofNat {n : Nat} (hn : n < 0x80000000) : RankLiteral (Bytes.ofNat n) n := by
  rcases Nat.eq_zero_or_pos n with rfl | hpos
  · exact .octal (by simp) (by decide)
  · have hhead := head?_ofNat hpos
    have hvalue := numberOf_ofNat n
    have hdigit : ∀ b ∈ Bytes.ofNat n, IsDigitOf 10 b := fun b hb => isDigitOf_of_isDigit (Bytes.isDigit_of_mem_ofNat hb)
    cases hof : Bytes.ofNat n with
    | nil => exact absurd (List.map_eq_nil_iff.mp hof) Nat.toDigits_ne_nil
    | cons b digits =>
      rw [hof] at hhead hvalue hdigit
      have hliteral : RankLiteral (b :: digits) _ := .decimal (by simpa using hhead) hdigit (hvalue ▸ hn)
      rwa [hvalue] at hliteral

theorem isSpelled_names {xs : List Bytes} (hx : xs.all isIdentifier = true) : ∀ l ∈ nameLexemes xs, l.isSpelled = true := by
  cases xs with
  | nil => simp [nameLexemes]
  | cons x xs =>
    simp only [List.all_cons, Bool.and_eq_true, List.all_eq_true] at hx
    simp only [nameLexemes, List.mem_flatMap, List.mem_cons, List.not_mem_nil, or_false]
    rintro l (rfl | ⟨y, hy, rfl | rfl⟩)
    · exact hx.1
    · rfl
    · exact hx.2 y hy

theorem isSpelled_word {x : Bytes} (hx : isWord x = true) : (word x).isSpelled = true := by
  rcases Bool.or_eq_true_iff.mp hx with hx | hx
  · rwa [word, startsWithDigit_of_identifier hx]
  · rwa [word, startsWithDigit_of_numeral hx]

theorem Statement.isSpelled_lexemes (hs : s.isSpellable = true) : ∀ l ∈ s.lexemes, l.isSpelled = true := by
  cases s with
  | nodes xs type =>
    simp only [isSpellable, Bool.and_eq_true] at hs
    obtain ⟨-, hxs, ht⟩ := hs
    simp only [lexemes, List.forall_mem_cons, List.forall_mem_append]
    exact ⟨rfl, isSpelled_names hxs, rfl, ht, by simp⟩
  | ext xs =>
    simp only [isSpellable, Bool.and_eq_true] at hs
    exact List.forall_mem_cons.mpr ⟨rfl, isSpelled_names hs.2⟩
  | selector source f target =>
    simp only [isSpellable, Bool.and_eq_true] at hs
    obtain ⟨hsource, hf, ht⟩ := hs
    simp only [lexemes, List.forall_mem_cons]
    exact ⟨isSpelled_word hsource, rfl, hf, rfl, ht, by simp⟩
  | «variable» name target =>
    simp only [isSpellable, Bool.and_eq_true] at hs
    simp only [lexemes, List.forall_mem_cons]
    exact ⟨isSpelled_word hs.1, rfl, hs.2, by simp⟩
  | hyperedge label xs =>
    simp only [isSpellable, Bool.and_eq_true] at hs
    simp only [lexemes, List.forall_mem_cons, List.forall_mem_append]
    exact ⟨isSpelled_word hs.1, rfl, isSpelled_names hs.2, rfl, by simp⟩

theorem isSpelled_body {body : List Statement} (hb : body.all Statement.isSpellable = true) :
    ∀ l ∈ body.flatMap Statement.lexemes, l.isSpelled = true := by
  intro l hl
  obtain ⟨s, hs, hl⟩ := List.mem_flatMap.mp hl
  exact s.isSpelled_lexemes (List.all_eq_true.mp hb s hs) l hl

theorem derives_spellable {body : List Statement} (hb : body.all Statement.isSpellable = true) :
    DerivesBody (body.flatMap Statement.lexemes) body :=
  derives_body fun s hs => Statement.isListed_of_isSpellable (List.all_eq_true.mp hb s hs)

namespace Declaration

variable {d : Declaration} (hd : d.isSpellable = true)

include hd

theorem isSpelled_lexemes : ∀ l ∈ d.lexemes, l.isSpelled = true := by
  cases d with
  | nonterminal label rank =>
    simp only [isSpellable, Bool.and_eq_true] at hd
    simp only [lexemes, List.forall_mem_cons]
    exact ⟨rfl, hd.1, rfl, isNumeral_ofNat _, by simp⟩
  | rule label body =>
    simp only [isSpellable, Bool.and_eq_true] at hd
    simp only [lexemes, List.forall_mem_cons, List.forall_mem_append]
    exact ⟨rfl, hd.1, rfl, isSpelled_body hd.2, rfl, by simp⟩
  | heap body =>
    simp only [lexemes, heapLexemes, List.forall_mem_cons, List.forall_mem_append]
    exact ⟨rfl, rfl, isSpelled_body hd, rfl, by simp⟩

theorem derives_lexemes : DerivesDeclaration d.lexemes d := by
  cases d with
  | nonterminal label rank =>
    simp only [isSpellable, Bool.and_eq_true, decide_eq_true_eq] at hd
    obtain ⟨-, h0, hlt⟩ := hd
    have hliteral := rankLiteral_ofNat (n := rank.toNat) (by omega)
    rw [Int.toNat_of_nonneg h0] at hliteral
    exact .nonterminal hliteral
  | rule label body => exact .rule (derives_spellable (Bool.and_eq_true_iff.mp hd).2)
  | heap body => exact .heap (derives_spellable hd)

end Declaration

theorem derives_flatMap {ds : List Declaration} (hd : ∀ d ∈ ds, d.isSpellable = true) :
    Derives (ds.flatMap Declaration.lexemes) ds := by
  induction ds with
  | nil => exact .nil
  | cons d ds ih =>
    obtain ⟨hd, hds⟩ := List.forall_mem_cons.mp hd
    exact .cons (Declaration.derives_lexemes hd) (ih hds)

theorem Derives.unique {ds ds' : List Declaration} (hd : Derives ls ds) (hd' : Derives ls ds') : ds = ds' := by
  have ht : ((ls.map (fun l => (⟨l, {}⟩ : Token))).map Token.lexeme) = ls := by simp [Function.comp_def]
  have hp := parseDeclarations_of_derives {} hd hd.length_le ht
  have hp' := parseDeclarations_of_derives {} hd' hd'.length_le ht
  exact Except.ok.inj (hp.symm.trans hp')

theorem parse_eq_ok {source : Bytes} {ds : List Declaration} :
    parse source = .ok ds ↔ ∃ ls, Splits source ls ∧ Derives ls ds := by
  constructor
  · intro hp
    rw [parse] at hp
    split at hp
    · rename_i t ht
      have hs := tokenize_iff.mp ⟨t, ht, rfl⟩
      exact ⟨_, hs, derives_of_parseDeclarations hs.isNumeral hp⟩
    · cases hp
  · rintro ⟨ls, hs, hd⟩
    exact parse_of_lexes_derives (splits_iff_lexes.mp hs) hd

theorem parse_exact :
    (∀ source ds, parse source = .ok ds ↔ ∃ ls, Splits source ls ∧ Derives ls ds) ∧
    (∀ source ls ls', Splits source ls → Splits source ls' → ls = ls') ∧
    (∀ ls ds ds', Derives ls ds → Derives ls ds' → ds = ds') ∧
    ∀ ds text, (∀ d ∈ ds, d.isSpellable = true) → Spaced text (ds.flatMap Declaration.lexemes) → parse text = .ok ds := by
  refine ⟨fun _ _ => parse_eq_ok, fun _ _ _ => Splits.unique, fun _ _ _ => Derives.unique, fun ds text hd hs => ?_⟩
  refine parse_of_lexes_derives (lexes_of_spaced hs fun l hl => ?_) (derives_flatMap hd)
  obtain ⟨d, hmem, hl⟩ := List.mem_flatMap.mp hl
  exact Declaration.isSpelled_lexemes (hd d hmem) l hl

theorem spaced_flatMap (ls : List Lexeme) : Spaced (ls.flatMap (fun l => l.text ++ [32])) ls := by
  induction ls with
  | nil => exact .nil
  | cons l ls ih =>
    rw [List.flatMap_cons, List.append_assoc]
    exact .lexeme (.blank rfl ih) (by simp [isBlank])

def keywordFile : List Declaration :=
  [.nonterminal "heap" 8,
    .rule "nodes" [.nodes ["ext", "rule"] "heap", .ext ["ext"], .selector "ext" "nodes" "rule", .hyperedge "nodes" [],
      .variable "07" "ext"]]

def keywordText : Bytes :=
  "nonterminal heap / 8 rule nodes \x7b nodes ext , rule : heap ext ext ext . nodes -> rule nodes ( ) 07 -> ext \x7d "

theorem parse_exact_keywords : Spaced keywordText (keywordFile.flatMap Declaration.lexemes) ∧
    parse keywordText = .ok keywordFile ∧
    (∃ ls, Splits "rule ext\x7bext nodes ext(nodes)\x7d# ext" ls ∧
      Derives ls [.rule "ext" [.ext ["nodes"], .hyperedge "ext" ["nodes"]]]) ∧
    ¬ ∃ ls ds, Splits "rule ext\x7bnodes ext -> rule\x7d" ls ∧ Derives ls ds := by
  obtain ⟨hexact, -, -, hprint⟩ := parse_exact
  have htext : keywordText = (keywordFile.flatMap Declaration.lexemes).flatMap (fun l => l.text ++ [32]) := by decide
  have hspaced : Spaced keywordText (keywordFile.flatMap Declaration.lexemes) := htext ▸ spaced_flatMap _
  refine ⟨hspaced, hprint _ _ (by decide) hspaced, (hexact _ _).mp rfl, ?_⟩
  rintro ⟨ls, ds, hs, hd⟩
  cases (hexact _ ds).mpr ⟨ls, hs, hd⟩

end HeapAbstraction.HeapFile
