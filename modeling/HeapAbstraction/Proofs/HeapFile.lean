import HeapAbstraction.Proofs.ElementaryEdit
import HeapAbstraction.HeapFile.Definitions

namespace HeapAbstraction.HeapFile

namespace HeapDef

variable {d d' : HeapDef} {ranks : List (Bytes × Int)} {body : List Statement}

theorem edited_ok {r : Except HeapError Heap} (he : d.edited r = .ok d') : r = .ok d'.heap := by
  cases r with
  | error e => simp [edited] at he
  | ok h =>
    simp only [edited, Except.ok.injEq] at he
    rw [← he]

theorem heap_nameNodes {names : List (Bytes × Nat)} (hn : d.nameNodes names = .ok d') : d'.heap = d.heap := by
  induction names generalizing d with
  | nil =>
    simp only [nameNodes, Except.ok.injEq] at hn
    rw [hn]
  | cons p names ih =>
    rw [nameNodes] at hn
    split at hn
    · simp at hn
    · have := ih hn
      exact this

theorem steps_declareNodes (hd : declareNodes d body = .ok d') : d.heap.Steps d'.heap := by
  induction body generalizing d with
  | nil =>
    cases hd
    exact .refl
  | cons s body ih =>
    cases s with
    | nodes names type =>
      rw [declareNodes] at hd
      split at hd
      · simp at hd
      · rename_i h ids ha
        obtain ⟨d₁, hn, hd⟩ := bind_ok hd
        have hadd : d.heap.Steps h := .apply (e := .addNodes type names.length) (by rw [ElementaryEdit.apply, ha]; rfl)
        have hrest := ih hd
        rw [heap_nameNodes hn] at hrest
        exact hadd.trans hrest
    | ext names => exact ih hd
    | selector source selector target => exact ih hd
    | «variable» name target => exact ih hd
    | hyperedge label tentacles => exact ih hd

theorem steps_setExternals {names : List Bytes} (hd : d.setExternals names = .ok d') : d.heap.Steps d'.heap := by
  induction names generalizing d with
  | nil =>
    cases hd
    exact .refl
  | cons x names ih =>
    obtain ⟨id, -, hd⟩ := bind_ok hd
    obtain ⟨d₁, he, hd⟩ := bind_ok hd
    have hset : d.heap.Steps d₁.heap := .apply (e := .setExternal id) (edited_ok he)
    exact hset.trans (ih hd)

theorem steps_perform {s : Statement} (hd : d.perform ranks s = .ok d') : d.heap.Steps d'.heap := by
  cases s with
  | nodes names type =>
    cases hd
    exact .refl
  | ext names => exact steps_setExternals hd
  | selector source selector target =>
    obtain ⟨s, -, hd⟩ := bind_ok hd
    obtain ⟨t, -, hd⟩ := bind_ok hd
    exact .apply (e := .addSelector s selector t) (edited_ok hd)
  | «variable» name target =>
    obtain ⟨t, -, hd⟩ := bind_ok hd
    exact .apply (e := .addVariable name t) (edited_ok hd)
  | hyperedge label tentacles =>
    rw [perform] at hd
    split at hd
    · simp at hd
    · obtain ⟨ts, -, hd⟩ := bind_ok hd
      exact .apply (e := .addNonterminal _ ts) (edited_ok hd)

theorem steps_performAll (hd : performAll ranks d body = .ok d') : d.heap.Steps d'.heap := by
  induction body generalizing d with
  | nil =>
    cases hd
    exact .refl
  | cons s body ih =>
    obtain ⟨d₁, hs, hd⟩ := bind_ok hd
    exact (steps_perform hs).trans (ih hd)

theorem built_ofBody (hd : ofBody ranks body = .ok d) : d.heap.Built := by
  obtain ⟨d₁, hn, hd⟩ := bind_ok hd
  obtain ⟨d₂, hp, hd⟩ := bind_ok hd
  exact ⟨d₂.heap, (steps_declareNodes hn).trans (steps_performAll hp), edited_ok hd⟩

end HeapDef

namespace Definitions

variable {defs defs' : Definitions}

theorem heaps_addRule {label : Bytes} {body : HeapDef} (ha : defs.addRule label body = .ok defs') :
    defs'.heaps = defs.heaps := by
  simp only [Definitions.addRule] at ha
  split at ha
  · split at ha
    · simp at ha
    · cases ha
      rfl
  · cases ha
    rfl

theorem built_addDeclaration (hb : ∀ d ∈ defs.heaps, d.heap.Built) {declaration : Declaration}
    (ha : defs.addDeclaration declaration = .ok defs') : ∀ d ∈ defs'.heaps, d.heap.Built := by
  cases declaration with
  | nonterminal label rank =>
    cases ha
    exact hb
  | rule label body =>
    rw [Definitions.addDeclaration] at ha
    split at ha
    · simp at ha
    · rwa [heaps_addRule ha]
  | heap body =>
    rw [Definitions.addDeclaration] at ha
    split at ha
    · simp at ha
    · rename_i d hd
      cases ha
      intro d' hd'
      rcases List.mem_append.mp hd' with hd' | hd'
      · exact hb d' hd'
      · rw [List.mem_singleton.mp hd']
        exact HeapDef.built_ofBody hd

theorem built_addDeclarations (hb : ∀ d ∈ defs.heaps, d.heap.Built) {declarations : List Declaration}
    (ha : defs.addDeclarations declarations = .ok defs') : ∀ d ∈ defs'.heaps, d.heap.Built := by
  induction declarations generalizing defs with
  | nil =>
    cases ha
    exact hb
  | cons declaration declarations ih =>
    obtain ⟨defs₁, h1, h2⟩ := bind_ok ha
    exact ih (built_addDeclaration hb h1) h2

end Definitions

theorem built_readHeap {source : Bytes} {d : HeapDef} (hr : readHeap source = .ok d) : d.heap.Built := by
  obtain ⟨defs, hdefs, hr⟩ := bind_ok hr
  split at hr
  · rename_i d' hd
    cases hr
    rw [readDefinitions] at hdefs
    split at hdefs
    · simp at hdefs
    · obtain ⟨ranks, -, hdefs⟩ := bind_ok hdefs
      refine Definitions.built_addDeclarations ?_ hdefs d (by simp [hd])
      simp
  · simp at hr

end HeapAbstraction.HeapFile
