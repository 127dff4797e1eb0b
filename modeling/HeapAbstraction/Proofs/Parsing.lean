import HeapAbstraction.Proofs.FileGrammar

namespace HeapAbstraction.HeapFile

variable {finish : Position} {ts : List Token} {ls more : List Lexeme}

theorem exists_token {l : Lexeme} (ht : ts.map Token.lexeme = l :: ls) :
    ∃ p rest, ts = ⟨l, p⟩ :: rest ∧ rest.map Token.lexeme = ls := by
  obtain ⟨⟨l', p⟩, rest, rfl, rfl, hrest⟩ := List.map_eq_cons_iff.mp ht
  exact ⟨p, rest, rfl, hrest⟩

theorem moreNames_of_lexemes {xs : List Bytes} (hc : ls.head? ≠ some .comma)
    (ht : ts.map Token.lexeme = xs.flatMap (fun y => [.comma, .ident y]) ++ ls) :
    ∃ rest, moreNames ts = (xs, rest) ∧ rest.map Token.lexeme = ls := by
  induction xs generalizing ts with
  | nil =>
    refine ⟨ts, ?_, ht⟩
    rw [moreNames]
    rintro p x q rest rfl
    simp only [List.flatMap_nil, List.nil_append, List.map_cons] at ht
    simp [← ht] at hc
  | cons x xs ih =>
    simp only [List.flatMap_cons, List.cons_append, List.nil_append] at ht
    obtain ⟨p, ts₁, rfl, ht₁⟩ := exists_token ht
    obtain ⟨q, ts₂, rfl, ht₂⟩ := exists_token ht₁
    obtain ⟨rest, hm, hrest⟩ := ih ht₂
    exact ⟨rest, by simp [moreNames, hm], hrest⟩

theorem parseStatement_word {w : Lexeme} {x : Bytes} {p : Position} {t : Token} (hw : DerivesWord w x)
    (hl : ∀ y, t.lexeme ≠ .ident y) :
    parseStatement finish (⟨w, p⟩ :: t :: ts) = parseElementTail finish x (t :: ts) := by
  obtain ⟨l, q⟩ := t
  cases hw with
  | int => rfl
  | ident =>
    cases l with
    | ident y => exact absurd rfl (hl y)
    | _ => rfl

theorem parseStatement_of_derives {s : Statement} (hd : DerivesStatement ls s) (hc : more.head? ≠ some .comma)
    (ht : ts.map Token.lexeme = ls ++ more) :
    ∃ rest, parseStatement finish ts = .done s rest ∧ rest.map Token.lexeme = more := by
  cases hd with
  | nodes hnames =>
    obtain ⟨x, xs, rfl, rfl⟩ := hnames.exists_cons
    simp only [nameLexemes, List.cons_append, List.append_assoc, List.nil_append] at ht
    obtain ⟨p₁, ts₁, rfl, ht₁⟩ := exists_token ht
    obtain ⟨p₂, ts₂, rfl, ht₂⟩ := exists_token ht₁
    obtain ⟨ts₃, hm, ht₃⟩ := moreNames_of_lexemes (by simp) ht₂
    obtain ⟨p₄, ts₄, rfl, ht₄⟩ := exists_token ht₃
    obtain ⟨p₅, rest, rfl, hrest⟩ := exists_token ht₄
    exact ⟨rest, by simp [parseStatement, parseNodes, hm], hrest⟩
  | ext hnames =>
    obtain ⟨x, xs, rfl, rfl⟩ := hnames.exists_cons
    simp only [nameLexemes, List.cons_append] at ht
    obtain ⟨p₁, ts₁, rfl, ht₁⟩ := exists_token ht
    obtain ⟨p₂, ts₂, rfl, ht₂⟩ := exists_token ht₁
    obtain ⟨rest, hm, hrest⟩ := moreNames_of_lexemes hc ht₂
    have hk : Bytes.ofString "ext" ≠ Bytes.ofString "nodes" := by decide
    exact ⟨rest, by simp [parseStatement, parseNodes, parseExt, hk, hm], hrest⟩
  | selector hw =>
    simp only [List.cons_append, List.nil_append] at ht
    obtain ⟨p₁, ts₁, rfl, ht₁⟩ := exists_token ht
    obtain ⟨p₂, ts₂, rfl, ht₂⟩ := exists_token ht₁
    obtain ⟨p₃, ts₃, rfl, ht₃⟩ := exists_token ht₂
    obtain ⟨p₄, ts₄, rfl, ht₄⟩ := exists_token ht₃
    obtain ⟨p₅, rest, rfl, hrest⟩ := exists_token ht₄
    exact ⟨rest, parseStatement_word hw (by simp), hrest⟩
  | «variable» hw =>
    simp only [List.cons_append, List.nil_append] at ht
    obtain ⟨p₁, ts₁, rfl, ht₁⟩ := exists_token ht
    obtain ⟨p₂, ts₂, rfl, ht₂⟩ := exists_token ht₁
    obtain ⟨p₃, rest, rfl, hrest⟩ := exists_token ht₂
    exact ⟨rest, parseStatement_word hw (by simp), hrest⟩
  | bare hw =>
    simp only [List.cons_append, List.nil_append] at ht
    obtain ⟨p₁, ts₁, rfl, ht₁⟩ := exists_token ht
    obtain ⟨p₂, ts₂, rfl, ht₂⟩ := exists_token ht₁
    obtain ⟨p₃, rest, rfl, hrest⟩ := exists_token ht₂
    exact ⟨rest, parseStatement_word hw (by simp), hrest⟩
  | hyperedge hw hnames =>
    obtain ⟨x, xs, rfl, rfl⟩ := hnames.exists_cons
    simp only [nameLexemes, List.cons_append, List.append_assoc, List.nil_append] at ht
    obtain ⟨p₁, ts₁, rfl, ht₁⟩ := exists_token ht
    obtain ⟨p₂, ts₂, rfl, ht₂⟩ := exists_token ht₁
    obtain ⟨p₃, ts₃, rfl, ht₃⟩ := exists_token ht₂
    obtain ⟨ts₄, hm, ht₄⟩ := moreNames_of_lexemes (by simp) ht₃
    obtain ⟨p₅, rest, rfl, hrest⟩ := exists_token ht₄
    refine ⟨rest, (parseStatement_word hw (by simp)).trans ?_, hrest⟩
    simp [parseElementTail, hm]

theorem parseStatements_of_derives (finish : Position) {body : List Statement} (hd : DerivesBody ls body) {n : Nat}
    (hn : body.length ≤ n) (ht : ts.map Token.lexeme = ls ++ .rbrace :: more) :
    ∃ rest, parseStatements finish n ts = .ok (body, rest) ∧ rest.map Token.lexeme = .rbrace :: more := by
  induction hd generalizing n ts with
  | nil =>
    refine ⟨ts, ?_, ht⟩
    obtain ⟨p, rest, rfl, -⟩ := exists_token ht
    cases n <;> rfl
  | @cons ls ls' s body hs hbody ih =>
    obtain ⟨n, rfl⟩ : ∃ k, n = k + 1 := ⟨n - 1, by simp only [List.length_cons] at hn; omega⟩
    rw [List.append_assoc] at ht
    have hcomma : (ls' ++ .rbrace :: more).head? ≠ some .comma := by
      cases hbody with
      | nil => simp
      | cons hs' _ =>
        obtain ⟨l, rest, rfl, hl⟩ := hs'.exists_lexeme
        simpa using hl
    obtain ⟨rest, hs, hrest⟩ := parseStatement_of_derives hs hcomma ht
    obtain ⟨rest', hss, hrest'⟩ := ih (Nat.le_of_succ_le_succ hn) hrest
    refine ⟨rest', ?_, hrest'⟩
    rw [parseStatements, hs]
    simp only [hss]
    rfl

theorem parseBody_of_derives (finish : Position) {body : List Statement} (hd : DerivesBody ls body)
    (ht : ts.map Token.lexeme = ls ++ .rbrace :: more) :
    ∃ rest, parseBody finish ts = .ok (body, rest) ∧ rest.map Token.lexeme = more := by
  have hlen : body.length ≤ ts.length := by
    have hle := hd.length_le
    rw [← List.length_map Token.lexeme, ht, List.length_append]
    omega
  obtain ⟨ts', hbody, ht'⟩ := parseStatements_of_derives finish hd hlen ht
  obtain ⟨p, rest, rfl, hrest⟩ := exists_token ht'
  refine ⟨rest, ?_, hrest⟩
  rw [parseBody, hbody]
  rfl

theorem parseDeclaration_of_derives (finish : Position) {d : Declaration} (hd : DerivesDeclaration ls d)
    (ht : ts.map Token.lexeme = ls ++ more) :
    ∃ rest, parseDeclaration finish ts = .done d rest ∧ rest.map Token.lexeme = more := by
  have hrn : Bytes.ofString "rule" ≠ Bytes.ofString "nonterminal" := by decide
  have hhn : Bytes.ofString "heap" ≠ Bytes.ofString "nonterminal" := by decide
  have hhr : Bytes.ofString "heap" ≠ Bytes.ofString "rule" := by decide
  cases hd with
  | nonterminal hrank =>
    simp only [List.cons_append, List.nil_append] at ht
    obtain ⟨p₁, ts₁, rfl, ht₁⟩ := exists_token ht
    obtain ⟨p₂, ts₂, rfl, ht₂⟩ := exists_token ht₁
    obtain ⟨p₃, ts₃, rfl, ht₃⟩ := exists_token ht₂
    obtain ⟨p₄, rest, rfl, hrest⟩ := exists_token ht₃
    refine ⟨rest, ?_, hrest⟩
    simp [parseDeclaration, parseNonterminal, readRank_of_rankLiteral hrank]
  | rule hbody =>
    simp only [List.cons_append, List.append_assoc, List.nil_append] at ht
    obtain ⟨p₁, ts₁, rfl, ht₁⟩ := exists_token ht
    obtain ⟨p₂, ts₂, rfl, ht₂⟩ := exists_token ht₁
    obtain ⟨p₃, ts₃, rfl, ht₃⟩ := exists_token ht₂
    obtain ⟨rest, hparse, hrest⟩ := parseBody_of_derives finish hbody ht₃
    exact ⟨rest, by simp [parseDeclaration, hrn, parseRule, hparse, Attempt.ofBody], hrest⟩
  | heap hbody =>
    simp only [List.cons_append, List.append_assoc, List.nil_append] at ht
    obtain ⟨p₁, ts₁, rfl, ht₁⟩ := exists_token ht
    obtain ⟨p₂, ts₂, rfl, ht₂⟩ := exists_token ht₁
    obtain ⟨rest, hparse, hrest⟩ := parseBody_of_derives finish hbody ht₂
    exact ⟨rest, by simp [parseDeclaration, hhn, hhr, parseHeapBody, hparse, Attempt.ofBody], hrest⟩

theorem parseDeclarations_of_derives (finish : Position) {ds : List Declaration} (hd : Derives ls ds) {n : Nat}
    (hn : ds.length ≤ n) (ht : ts.map Token.lexeme = ls) : parseDeclarations finish n ts = .ok ds := by
  induction hd generalizing n ts with
  | nil =>
    obtain rfl := List.map_eq_nil_iff.mp ht
    cases n <;> rfl
  | cons hd _ ih =>
    obtain ⟨n, rfl⟩ : ∃ k, n = k + 1 := ⟨n - 1, by simp only [List.length_cons] at hn; omega⟩
    obtain ⟨rest, hparse, hrest⟩ := parseDeclaration_of_derives finish hd ht
    rw [parseDeclarations, hparse]
    simp only [ih (Nat.le_of_succ_le_succ hn) hrest]
    rfl

theorem parseTokens_of_derives {ds : List Declaration} {t : Tokens} (hd : Derives (t.tokens.map Token.lexeme) ds) :
    parseTokens t = .ok ds :=
  parseDeclarations_of_derives t.finish hd (by simpa using hd.length_le) rfl

def Statement.isListed : Statement → Bool
  | .nodes names _ | .ext names => !names.isEmpty
  | _ => true

theorem Statement.isListed_of_isSpellable {s : Statement} (hs : s.isSpellable = true) : s.isListed = true := by
  cases s with
  | nodes xs type => exact (Bool.and_eq_true_iff.mp hs).1
  | ext xs => exact (Bool.and_eq_true_iff.mp hs).1
  | _ => rfl

theorem Statement.derives {s : Statement} (hs : s.isListed = true) : DerivesStatement s.lexemes s := by
  cases s with
  | nodes xs type =>
    cases xs with
    | nil => cases hs
    | cons x xs => exact .nodes (derivesNames_cons x xs)
  | ext xs =>
    cases xs with
    | nil => cases hs
    | cons x xs => exact .ext (derivesNames_cons x xs)
  | selector source f target => exact .selector (derivesWord_word source)
  | «variable» name target => exact .variable (derivesWord_word name)
  | hyperedge label xs =>
    cases xs with
    | nil => exact .bare (derivesWord_word label)
    | cons x xs => exact .hyperedge (derivesWord_word label) (derivesNames_cons x xs)

theorem derives_body {body : List Statement} (hb : ∀ s ∈ body, s.isListed = true) :
    DerivesBody (body.flatMap Statement.lexemes) body := by
  induction body with
  | nil => exact .nil
  | cons s body ih =>
    obtain ⟨hs, hbody⟩ := List.forall_mem_cons.mp hb
    exact .cons (Statement.derives hs) (ih hbody)

def heapLexemes (body : List Statement) : List Lexeme :=
  .ident "heap" :: .lbrace :: (body.flatMap Statement.lexemes ++ [.rbrace])

theorem parse_of_lexes_derives {ds : List Declaration} {text : Bytes} (hl : Lexes text ls) (hd : Derives ls ds) :
    parse text = .ok ds := by
  obtain ⟨t, ht, rfl⟩ := tokensFrom_of_lexes hl (Nat.le_refl _) {}
  rw [parse, tokenize, ht]
  exact parseTokens_of_derives hd

theorem parse_of_lexes {body : List Statement} (hb : ∀ s ∈ body, s.isListed = true) {text : Bytes}
    (hl : Lexes text (heapLexemes body)) : parse text = .ok [.heap body] := by
  have hd := Derives.cons (.heap (derives_body hb)) .nil
  rw [List.append_nil] at hd
  exact parse_of_lexes_derives hl hd

end HeapAbstraction.HeapFile
