import HeapAbstraction.Proofs.Parsing

namespace HeapAbstraction

open HeapFile (Statement Lexeme Lexes isIdentifier isNameByte)

namespace Bytes

theorem isDigit_toUInt8 {c : Char} (hc : c.isDigit = true) : isDigit c.toUInt8 = true ∧ c.toUInt8.toNat = c.toNat := by
  simp only [Char.isDigit, ge_iff_le, Bool.and_eq_true, decide_eq_true_eq, UInt32.le_iff_toNat_le] at hc
  obtain ⟨h0, h9⟩ := hc
  have h0' : 48 ≤ c.toNat := h0
  have h9' : c.toNat ≤ 57 := h9
  have hn : c.toUInt8.toNat = c.toNat := by
    rw [Char.toUInt8, UInt32.toNat_toUInt8]
    exact Nat.mod_eq_of_lt (by change c.toNat < 256; omega)
  refine ⟨?_, hn⟩
  simp only [isDigit, Bool.and_eq_true, decide_eq_true_eq, UInt8.le_iff_toNat_le, hn, UInt8.toNat_ofNat]
  omega

theorem isDigit_of_mem_ofNat {n : Nat} {b : UInt8} (hb : b ∈ ofNat n) : isDigit b = true := by
  obtain ⟨c, hc, rfl⟩ := List.mem_map.mp hb
  exact (isDigit_toUInt8 (Nat.isDigit_of_mem_toDigits (by omega) (by omega) hc)).1

theorem newline_notMem_ofNat (n : Nat) : 10 ∉ ofNat n := by
  intro hm
  cases isDigit_of_mem_ofNat hm

theorem ofNat_injective {m n : Nat} (h : ofNat m = ofNat n) : m = n := by
  have hback (k : Nat) : (ofNat k).map (fun b => Char.ofNat b.toNat) = Nat.toDigits 10 k := by
    rw [ofNat, List.map_map]
    refine (List.map_congr_left fun c hc => ?_).trans (List.map_id _)
    have hd := Nat.isDigit_of_mem_toDigits (by omega) (by omega) hc
    simp only [Function.comp_apply, (isDigit_toUInt8 hd).2, Char.ofNat_toNat, id]
  have hdigits : Nat.toDigits 10 m = Nat.toDigits 10 n := by rw [← hback, ← hback, h]
  rw [← Nat.ofDigitChars_toDigits (b := 10) (n := m) (by omega) (by omega), hdigits,
    Nat.ofDigitChars_toDigits (by omega) (by omega)]

end Bytes

namespace Heap

theorem isIdentifier_nodeName (x : Nat) : isIdentifier (nodeName x) = true := by
  refine Bool.and_eq_true_iff.mpr ⟨rfl, List.all_eq_true.mpr fun b hb => ?_⟩
  exact Bool.or_eq_true_iff.mpr (.inr (Bytes.isDigit_of_mem_ofNat hb))

theorem nodeName_injective {x y : Nat} (h : nodeName x = nodeName y) : x = y :=
  Bytes.ofNat_injective (List.append_cancel_left h)

end Heap

namespace PrintOptions

def separator (opts : PrintOptions) : Bytes := if opts.multiline then "\n    " else "  "

def heading (opts : PrintOptions) : Bytes := if opts.label.isEmpty then [] else "# " ++ opts.label ++ "\n"

def ending (opts : PrintOptions) : Bytes := if opts.multiline then "\n\x7d\n" else "  \x7d"

def note (opts : PrintOptions) : Option Nat → Bytes
  | some id => if opts.publicIds then "  # " ++ Bytes.ofNat id else []
  | none => []

structure Harmless (opts : PrintOptions) : Prop where
  label : 10 ∉ opts.label
  publicIds : opts.publicIds = true → opts.multiline = true

def page (opts : PrintOptions) (texts : List Bytes) : Bytes :=
  opts.heading ++ "heap \x7b" ++ texts.flatMap (fun s => opts.separator ++ s) ++ opts.ending

end PrintOptions

abbrev Line := Statement × Option Nat

def Line.text (opts : PrintOptions) (l : Line) : Bytes := l.1.text ++ opts.note l.2

theorem Line.text_none (opts : PrintOptions) (s : Statement) : Line.text opts (s, none) = s.text := List.append_nil _

namespace PrintOptions

variable {opts : PrintOptions} {ls : List Lexeme} {lines : List Line}

def breakByte (opts : PrintOptions) : UInt8 := if opts.multiline then 10 else 32

theorem exists_ending (opts : PrintOptions) : ∃ rest, opts.ending = opts.breakByte :: rest := by
  rw [ending, breakByte]
  split <;> exact ⟨_, rfl⟩

theorem exists_separator (opts : PrintOptions) (text : Bytes) : ∃ rest, opts.separator ++ text = opts.breakByte :: rest := by
  rw [separator, breakByte]
  split <;> exact ⟨_, rfl⟩

theorem exists_break {tail : Bytes} (texts : List Bytes) (htail : ∃ rest, tail = opts.breakByte :: rest) :
    ∃ rest, texts.flatMap (fun s => opts.separator ++ s) ++ tail = opts.breakByte :: rest := by
  cases texts with
  | nil => exact htail
  | cons s texts =>
    rw [List.flatMap_cons, List.append_assoc, List.append_assoc]
    exact exists_separator opts _

theorem lexes_separator (opts : PrintOptions) {text : Bytes} (hl : Lexes text ls) : Lexes (opts.separator ++ text) ls := by
  rw [separator]
  split
  · exact ((((hl.blank rfl).blank rfl).blank rfl).blank rfl).blank rfl
  · exact (hl.blank rfl).blank rfl

theorem exists_note {id : Option Nat} (hn : opts.note id ≠ []) : ∃ n, opts.note id = "  # " ++ Bytes.ofNat n := by
  cases id with
  | none => exact absurd rfl hn
  | some n =>
    rw [note] at hn ⊢
    split at hn
    · exact ⟨n, by rw [if_pos ‹_›]⟩
    · exact absurd rfl hn

theorem lexes_note {id : Option Nat} (hid : opts.note id = [] ∨ opts.multiline = true) {rest : Bytes}
    (hl : Lexes (opts.breakByte :: rest) ls) :
    Lexes (opts.note id ++ opts.breakByte :: rest) ls ∧ HeapFile.Apart (opts.note id ++ opts.breakByte :: rest) := by
  by_cases hnote : opts.note id = []
  · rw [hnote]
    exact ⟨hl, HeapFile.apart_cons (by rw [breakByte]; split <;> rfl)⟩
  · obtain ⟨n, hn⟩ := exists_note hnote
    rw [hn, breakByte, if_pos (hid.resolve_left hnote)] at *
    have hdigits : 10 ∉ 32 :: Bytes.ofNat n := by
      rw [List.mem_cons, not_or]
      exact ⟨by decide, Bytes.newline_notMem_ofNat n⟩
    exact ⟨((hl.comment hdigits).blank rfl).blank rfl, HeapFile.apart_cons rfl⟩

theorem lexes_lines (hs : ∀ l ∈ lines, l.1.isSpellable = true)
    (hn : ∀ l ∈ lines, opts.note l.2 = [] ∨ opts.multiline = true) {tail : Bytes}
    (htail : ∃ rest, tail = opts.breakByte :: rest) (hl : Lexes tail ls) :
    Lexes ((lines.map (Line.text opts)).flatMap (fun s => opts.separator ++ s) ++ tail)
      ((lines.map Prod.fst).flatMap Statement.lexemes ++ ls) := by
  induction lines with
  | nil => exact hl
  | cons l lines ih =>
    obtain ⟨hspell, hlines⟩ := List.forall_mem_cons.mp hs
    obtain ⟨hend, hends⟩ := List.forall_mem_cons.mp hn
    have hrest := ih hlines hends
    obtain ⟨rest, htext⟩ := exists_break (lines.map (Line.text opts)) htail
    rw [htext] at hrest
    obtain ⟨hnote, hapart⟩ := lexes_note hend hrest
    have hall := lexes_separator opts (hnote.statement hspell hapart)
    simpa only [List.map_cons, List.flatMap_cons, List.append_assoc, Line.text, htext] using hall

theorem lexes_ending (opts : PrintOptions) : Lexes opts.ending [.rbrace] := by
  rw [ending]
  split
  · exact ((Lexes.nil.blank rfl).mark rfl).blank rfl
  · exact ((Lexes.nil.mark rfl).blank rfl).blank rfl

theorem lexes_heading (hlabel : 10 ∉ opts.label) {text : Bytes} (hl : Lexes text ls) :
    Lexes (opts.heading ++ "heap \x7b" ++ text) (.ident "heap" :: .lbrace :: ls) := by
  have hbrace : Lexes (123 :: text) (.lbrace :: ls) := hl.mark rfl
  have hheap := hbrace.keyword (k := "heap") rfl
  rw [List.append_assoc, heading]
  split
  · exact hheap
  · have hcomment : 10 ∉ 32 :: opts.label := by simp [hlabel]
    have hall := (hheap.blank (b := 10) rfl).comment hcomment
    simp only [List.append_assoc]
    exact hall

theorem lexes_page_of_notes (hlabel : 10 ∉ opts.label) (hn : ∀ l ∈ lines, opts.note l.2 = [] ∨ opts.multiline = true)
    (hs : ∀ l ∈ lines, l.1.isSpellable = true) :
    Lexes (opts.page (lines.map (Line.text opts))) (HeapFile.heapLexemes (lines.map Prod.fst)) := by
  have hall := lexes_heading hlabel (lexes_lines hs hn (exists_ending opts) (lexes_ending opts))
  rwa [← List.append_assoc] at hall

theorem lexes_page (ho : opts.Harmless) (hs : ∀ l ∈ lines, l.1.isSpellable = true) :
    Lexes (opts.page (lines.map (Line.text opts))) (HeapFile.heapLexemes (lines.map Prod.fst)) := by
  refine lexes_page_of_notes ho.label (fun l _ => ?_) hs
  by_cases hp : opts.publicIds = true
  · exact .inr (ho.publicIds hp)
  · refine .inl ?_
    cases l.2 <;> simp [note, hp]

end PrintOptions

end HeapAbstraction
