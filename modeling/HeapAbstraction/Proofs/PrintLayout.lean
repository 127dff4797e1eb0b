import HeapAbstraction.Proofs.TextRoundTrip
import HeapAbstraction.Proofs.ParseExact

namespace HeapAbstraction

namespace HeapFile

variable {ls : List Lexeme} {name : Bytes}

theorem Lexes.lastComment (hn : 10 ∉ name) : Lexes (35 :: name) [] := by
  have hdrop : name.dropWhile (· != 10) = [] := List.dropWhile_eq_nil_iff.mpr (List.all_eq_true.mp (all_ne_newline hn))
  have hm : munch? (35 :: name) = some ⟨none, _, name.dropWhile (· != 10)⟩ := rfl
  exact .skip (hdrop ▸ hm) .nil

theorem newline_notMem_cons {p q : UInt8 → Bool} {b : UInt8} (hn : (p b && name.all q) = true) (hp : p 10 = false)
    (hq : q 10 = false) : 10 ∉ b :: name := by
  obtain ⟨hb, hname⟩ := Bool.and_eq_true_iff.mp hn
  intro hm
  rcases List.mem_cons.mp hm with rfl | hm
  · simp [hp] at hb
  · exact absurd (List.all_eq_true.mp hname 10 hm) (by simp [hq])

theorem newline_notMem_of_isIdentifier (hn : isIdentifier name = true) : 10 ∉ name := by
  cases name with
  | nil => cases hn
  | cons b name => exact newline_notMem_cons hn rfl rfl

theorem newline_notMem_of_isWord (hn : isWord name = true) : 10 ∉ name := by
  rcases Bool.or_eq_true_iff.mp hn with hn | hn
  · exact newline_notMem_of_isIdentifier hn
  · cases name with
    | nil => cases hn
    | cons b name => exact newline_notMem_cons hn rfl rfl

theorem newline_notMem_commaSeparated {xs : List Bytes} (hx : xs.all isIdentifier = true) :
    10 ∉ Heap.commaSeparated xs := by
  induction xs with
  | nil => simp [Heap.commaSeparated]
  | cons x xs ih =>
    simp only [List.all_cons, Bool.and_eq_true] at hx
    have hfirst := newline_notMem_of_isIdentifier hx.1
    cases xs with
    | nil => simpa [Heap.commaSeparated] using hfirst
    | cons y ys =>
      have hcomma : 10 ∉ Bytes.ofString ", " := by decide
      rw [Heap.commaSeparated, List.intercalate_cons_cons, List.mem_append, List.mem_append, not_or, not_or]
      exact ⟨⟨hfirst, hcomma⟩, ih hx.2⟩

theorem Statement.newline_notMem_text {s : Statement} (hs : s.isSpellable = true) : 10 ∉ s.text := by
  have harrow : 10 ∉ Bytes.ofString " -> " := by decide
  cases s with
  | nodes xs type =>
    simp only [isSpellable, Bool.and_eq_true] at hs
    have hword : 10 ∉ Bytes.ofString "nodes " := by decide
    have hcolon : 10 ∉ Bytes.ofString " : " := by decide
    simp only [text, List.mem_append, not_or]
    exact ⟨⟨⟨hword, newline_notMem_commaSeparated hs.2.1⟩, hcolon⟩, newline_notMem_of_isIdentifier hs.2.2⟩
  | ext xs =>
    simp only [isSpellable, Bool.and_eq_true] at hs
    have hword : 10 ∉ Bytes.ofString "ext " := by decide
    simp only [text, List.mem_append, not_or]
    exact ⟨hword, newline_notMem_commaSeparated hs.2⟩
  | selector source f target =>
    simp only [isSpellable, Bool.and_eq_true] at hs
    have hdot : 10 ∉ Bytes.ofString "." := by decide
    simp only [text, List.mem_append, not_or]
    exact ⟨⟨⟨⟨newline_notMem_of_isWord hs.1, hdot⟩, newline_notMem_of_isIdentifier hs.2.1⟩, harrow⟩,
      newline_notMem_of_isIdentifier hs.2.2⟩
  | «variable» name target =>
    simp only [isSpellable, Bool.and_eq_true] at hs
    simp only [text, List.mem_append, not_or]
    exact ⟨⟨newline_notMem_of_isWord hs.1, harrow⟩, newline_notMem_of_isIdentifier hs.2⟩
  | hyperedge label xs =>
    simp only [isSpellable, Bool.and_eq_true] at hs
    have hopen : 10 ∉ Bytes.ofString "(" := by decide
    have hclose : 10 ∉ Bytes.ofString ")" := by decide
    simp only [text, List.mem_append, not_or]
    exact ⟨⟨⟨newline_notMem_of_isWord hs.1, hopen⟩, newline_notMem_commaSeparated hs.2⟩, hclose⟩

theorem Statement.rbrace_notMem_lexemes (s : Statement) : .rbrace ∉ s.lexemes := by
  have hword (x : Bytes) : .rbrace ≠ word x := by
    rw [word]
    split <;> simp
  have hnames (xs : List Bytes) : .rbrace ∉ nameLexemes xs := by
    cases xs <;> simp [nameLexemes]
  cases s <;> simp [Statement.lexemes, hword, hnames]

theorem DerivesDeclaration.rbrace_mem {d : Declaration} (hd : DerivesDeclaration ls d) (hl : .lbrace ∈ ls) :
    .rbrace ∈ ls := by
  cases hd with
  | nonterminal _ => simp at hl
  | rule _ => simp
  | heap _ => simp

theorem Derives.rbrace_mem {ds : List Declaration} (hd : Derives ls ds) (hl : .lbrace ∈ ls) : .rbrace ∈ ls := by
  induction hd with
  | nil => exact absurd hl List.not_mem_nil
  | cons hd _ ih =>
    rw [List.mem_append] at hl ⊢
    exact hl.imp hd.rbrace_mem ih

theorem readHeap_eq_of_parse {text : Bytes} {body : List Statement} (hp : parse text = .ok [.heap body]) :
    readHeap text = (HeapDef.ofBody [] body).mapError (.inHeap 1) := by
  cases hd : HeapDef.ofBody [] body with
  | ok d => exact readHeap_of_parse hp hd
  | error e =>
    have hdefs : readDefinitions text = .error (.inHeap 1 e) := by
      rw [readDefinitions, hp]
      change (Definitions.addDeclaration _ (.heap body) >>= fun defs => Definitions.addDeclarations defs []) = _
      rw [Definitions.addDeclaration, hd]
      rfl
    rw [readHeap, hdefs]
    rfl

end HeapFile

open HeapFile

namespace Outline

def front (o : Outline) : List Line := o.groups.map nodesOf ++ extOf o.externals ++ o.selectors.map selectorOf

theorem snd_of_mem_front {o : Outline} {l : Line} (hl : l ∈ o.front) : l.2 = none := by
  rw [front, List.mem_append, List.mem_append] at hl
  rcases hl with (hl | hl) | hl
  · obtain ⟨g, -, rfl⟩ := List.mem_map.mp hl
    rfl
  · rw [extOf] at hl
    split at hl
    · cases hl
    · rw [List.mem_singleton.mp hl]
  · obtain ⟨p, -, rfl⟩ := List.mem_map.mp hl
    rfl

theorem lines_eq {o : Outline} {p : Nat × Nonterminal × List Nat} {ps : List (Nat × Nonterminal × List Nat)}
    (ho : o.hyperedges = p :: ps) :
    o.lines = o.front ++ hyperedgeOf p :: (ps.map hyperedgeOf ++ o.pointers.map pointerOf) := by
  rw [lines, ho, List.map_cons, List.append_assoc]
  rfl

theorem snd_of_mem_lines {o : Outline} (ho : o.hyperedges = []) {l : Line} (hl : l ∈ o.lines) : l.2 = none := by
  rw [lines, ho, List.map_nil, List.append_nil, List.mem_append] at hl
  rcases hl with hl | hl
  · exact snd_of_mem_front hl
  · obtain ⟨p, -, rfl⟩ := List.mem_map.mp hl
    rfl

end Outline

namespace PrintOptions

variable {opts opts' : PrintOptions} {h : Heap}

def Swallows (opts : PrintOptions) (h : Heap) : Prop :=
  opts.publicIds = true ∧ opts.multiline = false ∧ h.nonterminalEdges ≠ []

instance (opts : PrintOptions) (h : Heap) : Decidable (opts.Swallows h) := inferInstanceAs (Decidable (_ ∧ _ ∧ _))

def cutLexemes (o : Outline) : List Lexeme :=
  .ident "heap" :: .lbrace ::
    ((o.front ++ (o.hyperedges.take 1).map Outline.hyperedgeOf).map Prod.fst).flatMap Statement.lexemes

def lexemes (opts : PrintOptions) (h : Heap) : List Lexeme :=
  if opts.Swallows h then cutLexemes h.outline else heapLexemes (h.outline.lines.map Prod.fst)

theorem newline_notMem_note (opts : PrintOptions) (id : Option Nat) : 10 ∉ opts.note id := by
  by_cases hnote : opts.note id = []
  · rw [hnote]
    exact List.not_mem_nil
  · obtain ⟨n, hn⟩ := exists_note hnote
    have hmark : 10 ∉ Bytes.ofString "  # " := by decide
    rw [hn, List.mem_append, not_or]
    exact ⟨hmark, Bytes.newline_notMem_ofNat n⟩

theorem newline_notMem_lines (hm : opts.multiline = false) {lines : List Line} (hs : ∀ l ∈ lines, l.1.isSpellable = true) :
    10 ∉ (lines.map (Line.text opts)).flatMap (fun s => opts.separator ++ s) ++ opts.ending := by
  have hsep : 10 ∉ opts.separator := by
    rw [separator, hm]
    decide
  have hending : 10 ∉ opts.ending := by
    rw [ending, hm]
    decide
  rw [List.mem_append, not_or, List.mem_flatMap]
  refine ⟨?_, hending⟩
  rintro ⟨text, htext, hmem⟩
  obtain ⟨l, hl, rfl⟩ := List.mem_map.mp htext
  rw [Line.text, List.mem_append, List.mem_append] at hmem
  rcases hmem with hmem | hmem | hmem
  · exact hsep hmem
  · exact Statement.newline_notMem_text (hs l hl) hmem
  · exact newline_notMem_note opts l.2 hmem

theorem lexes_cut (hp : opts.publicIds = true) (hm : opts.multiline = false) {s : Statement} (id : Nat)
    {after : List Line} (hs : s.isSpellable = true) (hafter : ∀ l ∈ after, l.1.isSpellable = true) :
    Lexes ((((s, some id) :: after).map (Line.text opts)).flatMap (fun s => opts.separator ++ s) ++ opts.ending)
      s.lexemes := by
  have hrest : 10 ∉ 32 :: (Bytes.ofNat id ++
      ((after.map (Line.text opts)).flatMap (fun s => opts.separator ++ s) ++ opts.ending)) := by
    rw [List.mem_cons, List.mem_append, not_or, not_or]
    exact ⟨by decide, Bytes.newline_notMem_ofNat id, newline_notMem_lines hm hafter⟩
  -- the public ID starts a comment, and no line break ends it
  have hnote := ((Lexes.lastComment hrest).blank (b := 32) rfl).blank (b := 32) rfl
  have hall := lexes_separator opts (hnote.statement hs (apart_cons rfl))
  rw [List.append_nil] at hall
  simp only [List.map_cons, List.flatMap_cons, List.append_assoc, Line.text, note, hp, if_true]
  exact hall

theorem lexes_print (hw : h.WellFormed) (hn : h.state.Writable) (hlabel : 10 ∉ opts.label) :
    Lexes (opts.page (h.outline.lines.map (Line.text opts))) (opts.lexemes h) := by
  have hspell : ∀ l ∈ h.outline.lines, l.1.isSpellable = true := fun l => Outline.spellable hw.lists_outline hn
  have hnone {l : Line} (hl : l.2 = none) : opts.note l.2 = [] := by
    rw [hl]
    rfl
  rw [lexemes]
  split
  · rename_i hswallows
    obtain ⟨hp, hm, hne⟩ := hswallows
    obtain ⟨p, ps, hps⟩ : ∃ p ps, h.outline.hyperedges = p :: ps :=
      List.exists_cons_of_ne_nil (by simpa [Heap.outline] using hne)
    rw [Outline.lines_eq hps, List.forall_mem_append, List.forall_mem_cons] at hspell
    obtain ⟨hfront, hfirst, hafter⟩ := hspell
    have htail := lexes_cut hp hm p.1 hfirst hafter
    have hall := lexes_heading hlabel (lexes_lines hfront
      (fun l hl => .inl (hnone (Outline.snd_of_mem_front hl))) (exists_break _ (exists_ending opts)) htail)
    rw [cutLexemes, hps, List.take_succ_cons, List.take_zero, List.map_singleton, List.map_append, List.flatMap_append,
      List.map_singleton, List.flatMap_singleton, page, Outline.lines_eq hps, List.map_append, List.flatMap_append]
    simp only [List.append_assoc] at hall ⊢
    exact hall
  · rename_i hswallows
    refine lexes_page_of_notes hlabel (fun l hl => ?_) hspell
    by_cases hm : opts.multiline = true
    · exact .inr hm
    · refine .inl ?_
      by_cases hp : opts.publicIds = true
      · -- there is no hyperedge to comment on
        have hne : h.nonterminalEdges = [] := by
          by_contra hne
          exact hswallows ⟨hp, by simpa using hm, hne⟩
        exact hnone (Outline.snd_of_mem_lines (by simp [Heap.outline, hne]) hl)
      · cases l.2 <;> simp [note, hp]

theorem rbrace_mem_lexemes : .rbrace ∈ opts.lexemes h ↔ ¬ opts.Swallows h := by
  rw [lexemes]
  split
  · rename_i hswallows
    refine iff_of_false ?_ (not_not.mpr hswallows)
    simp only [cutLexemes, List.mem_cons, List.mem_flatMap, reduceCtorEq, false_or]
    rintro ⟨s, -, hs⟩
    exact s.rbrace_notMem_lexemes hs
  · rename_i hswallows
    exact iff_of_true (by simp [heapLexemes]) hswallows

theorem lexemes_eq_iff : opts.lexemes h = opts'.lexemes h ↔ (opts.Swallows h ↔ opts'.Swallows h) := by
  constructor
  · intro heq
    rw [← not_iff_not, ← rbrace_mem_lexemes, ← rbrace_mem_lexemes, heq]
  · intro hiff
    simp only [lexemes, hiff]

end PrintOptions

namespace Heap

variable {h : Heap} {opts opts' : PrintOptions}

theorem parse_print (hw : h.WellFormed) (hn : h.state.Writable) (hlabel : 10 ∉ opts.label) (hs : ¬ opts.Swallows h) :
    parse (opts.page (h.outline.lines.map (Line.text opts))) = .ok [.heap (h.outline.lines.map Prod.fst)] := by
  have hlex := PrintOptions.lexes_print hw hn hlabel
  rw [PrintOptions.lexemes, if_neg hs] at hlex
  refine parse_of_lexes (fun s hm => ?_) hlex
  obtain ⟨l, hl, rfl⟩ := List.mem_map.mp hm
  exact Statement.isListed_of_isSpellable (Outline.spellable hw.lists_outline hn hl)

theorem malformed_print (hw : h.WellFormed) (hn : h.state.Writable) (hlabel : 10 ∉ opts.label) (hs : opts.Swallows h) :
    ∃ e, readHeap (opts.page (h.outline.lines.map (Line.text opts))) = .error (.malformed e) := by
  have hlex := PrintOptions.lexes_print hw hn hlabel
  cases hp : parse (opts.page (h.outline.lines.map (Line.text opts))) with
  | error e =>
    refine ⟨e, ?_⟩
    rw [readHeap, readDefinitions, hp]
    rfl
  | ok ds =>
    -- the brace that is opened is never closed
    obtain ⟨ls, hsplit, hd⟩ := parse_eq_ok.mp hp
    obtain rfl := hsplit.unique (splits_iff_lexes.mpr hlex)
    have hopen : .lbrace ∈ opts.lexemes h := by
      rw [PrintOptions.lexemes, if_pos hs]
      simp [PrintOptions.cutLexemes]
    exact absurd hs (PrintOptions.rbrace_mem_lexemes.mp (hd.rbrace_mem hopen))

theorem print_lexemes_iff (hw : h.WellFormed) (hn : h.state.Writable) (hl : 10 ∉ opts.label) (hl' : 10 ∉ opts'.label) :
    ∃ text text' ls ls', h.print opts = .ok text ∧ h.print opts' = .ok text' ∧ Splits text ls ∧ Splits text' ls' ∧
      (ls = ls' ↔ (opts.Swallows h ↔ opts'.Swallows h)) ∧
      (opts.Swallows h ↔ ∃ e, readHeap text = .error (.malformed e)) ∧
      (¬ opts.Swallows h → ¬ opts'.Swallows h → readHeap text = readHeap text') := by
  refine ⟨_, _, _, _, print_eq hw opts, print_eq hw opts', splits_iff_lexes.mpr (PrintOptions.lexes_print hw hn hl),
    splits_iff_lexes.mpr (PrintOptions.lexes_print hw hn hl'), PrintOptions.lexemes_eq_iff, ?_, fun hs hs' => ?_⟩
  · refine ⟨malformed_print hw hn hl, fun ⟨e, he⟩ => ?_⟩
    by_contra hs
    rw [readHeap_eq_of_parse (parse_print hw hn hl hs)] at he
    cases hd : HeapDef.ofBody [] (h.outline.lines.map Prod.fst) <;> simp [hd, Except.mapError] at he
  · rw [readHeap_eq_of_parse (parse_print hw hn hl hs), readHeap_eq_of_parse (parse_print hw hn hl' hs')]

theorem print_lexemes_reserved : reserved.WellFormed ∧ reserved.state.Writable ∧ ∃ text text' ls,
    reserved.print {} = .ok text ∧ reserved.print annotated = .ok text' ∧ Splits text ls ∧ Splits text' ls ∧
      readHeap text = readHeap text' ∧ ¬ ∃ e, readHeap text = .error (.malformed e) := by
  have hlabel : 10 ∉ PrintOptions.label {} := by decide
  have hlabel' : 10 ∉ annotated.label := by decide
  obtain ⟨text, text', ls, ls', htext, htext', hls, hls', hiff, hread, hsame⟩ :=
    print_lexemes_iff wellFormed_reserved writable_reserved hlabel hlabel'
  obtain rfl := hiff.mpr (by decide)
  exact ⟨wellFormed_reserved, writable_reserved, text, text', ls, htext, htext', hls, hls',
    hsame (by decide) (by decide), mt hread.mpr (by decide)⟩

theorem print_reserved_unreadable : reserved.WellFormed ∧ reserved.Idle ∧ reserved.state.Writable ∧
    ∃ text text' ls ls', reserved.print { publicIds := true } = .ok text ∧ reserved.print {} = .ok text' ∧
      Splits text ls ∧ Splits text' ls' ∧ ls ≠ ls' ∧ ∃ e, readHeap text = .error (.malformed e) := by
  have hlabel : 10 ∉ PrintOptions.label { publicIds := true } := by decide
  have hlabel' : 10 ∉ PrintOptions.label {} := by decide
  have hw := wellFormed_reserved
  have hn := writable_reserved
  have hne : PrintOptions.lexemes { publicIds := true } reserved ≠ PrintOptions.lexemes {} reserved := by
    rw [Ne, PrintOptions.lexemes_eq_iff]
    decide
  exact ⟨hw, by decide, hn, _, _, _, _, print_eq hw _, print_eq hw _,
    splits_iff_lexes.mpr (PrintOptions.lexes_print hw hn hlabel),
    splits_iff_lexes.mpr (PrintOptions.lexes_print hw hn hlabel'), hne, malformed_print hw hn hlabel (by decide)⟩

end Heap

end HeapAbstraction
