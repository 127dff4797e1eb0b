import HeapAbstraction.Proofs.Folding

namespace HeapAbstraction

@[ext]
structure HeapState where
  nextId : Nat
  nodeType : Nat → Option Bytes
  selector : Nat → Bytes → Option Nat
  hyperedge : Nat → Option (Nonterminal × List Nat)
  pointer : Nat → Option (Bytes × Nat)
  externals : List Nat

namespace HeapState

def kind? (A : HeapState) (x : Nat) : Option Kind :=
  if (A.nodeType x).isSome then some .node
  else if (A.hyperedge x).isSome then some .nonterminal
  else if (A.pointer x).isSome then some .variable
  else none

def find (A : HeapState) (id : Int) (kind : Kind) : Except HeapError Nat :=
  match id with
  | .negSucc _ => .error (.unknownId id)
  | .ofNat x =>
      match A.kind? x with
      | none => .error (.unknownId id)
      | some k => if k = kind then .ok x else .error (.wrongKind id k kind)

structure Isolated (A : HeapState) (x : Nat) : Prop where
  source : ∀ s, A.selector x s = none
  target : ∀ y s, A.selector y s ≠ some x
  tentacle : ∀ y nt ys, A.hyperedge y = some (nt, ys) → x ∉ ys
  pointer : ∀ y name, A.pointer y ≠ some (name, x)

def addNodes (A : HeapState) (type : Bytes) (n : Nat) : HeapState :=
  { A with
    nextId := A.nextId + n
    nodeType := fun x => if A.nextId ≤ x ∧ x < A.nextId + n then some type else A.nodeType x }

def removeNode (A : HeapState) (x : Nat) : HeapState :=
  { A with nodeType := Function.update A.nodeType x none, externals := A.externals.erase x }

def setSelector (A : HeapState) (x : Nat) (s : Bytes) (target : Option Nat) : HeapState :=
  { A with selector := Function.update A.selector x (Function.update (A.selector x) s target) }

def setHyperedge (A : HeapState) (x : Nat) (edge : Option (Nonterminal × List Nat)) : HeapState :=
  { A with hyperedge := Function.update A.hyperedge x edge }

def setPointer (A : HeapState) (x : Nat) (pointer : Option (Bytes × Nat)) : HeapState :=
  { A with pointer := Function.update A.pointer x pointer }

def next (A : HeapState) : HeapState := { A with nextId := A.nextId + 1 }

end HeapState

namespace Heap

def state (h : Heap) : HeapState where
  nextId := h.nextId
  nodeType x := (h.nodeTypeOf x).toOption
  selector x s := (h.selectorTargetOf x s).toOption.join
  hyperedge x := (do return (← h.nonterminalOf x, ← h.attachedNodesOf x)).toOption
  pointer x := (do return (← h.variableNameOf x, ← h.variableTargetOf x)).toOption
  externals := h.externalNodes.toOption.getD []

end Heap

namespace HeapView

theorem Typed.selector_source {V : HeapView} (ht : V.Typed) (hp : V.Proper) {x y : Nat} {s : Bytes}
    (hl : V.link x (.selector s) y) : ∃ type, V.label x = some (.node type) := by
  obtain ⟨lab, hlab⟩ := hp.link_label _ _ _ hl
  have hfit := ht.fits x lab hlab
  cases lab with
  | node type => exact ⟨type, hlab⟩
  | nonterminal nt =>
    obtain ⟨k, -, hten⟩ := hfit
    obtain ⟨i, -, hi⟩ := (hten _).mp ⟨y, hl⟩
    cases hi
  | «variable» name => cases (hfit _).mp ⟨y, hl⟩

structure Denotes (V : HeapView) (A : HeapState) : Prop where
  nextId : A.nextId = V.nextId
  nodeType : ∀ x type, A.nodeType x = some type ↔ V.label x = some (.node type)
  selector : ∀ x s y, A.selector x s = some y ↔ V.link x (.selector s) y
  hyperedge : ∀ x nt ys, A.hyperedge x = some (nt, ys) ↔
    V.label x = some (.nonterminal nt) ∧ ∀ i y, ys[i]? = some y ↔ V.link x (.tentacle i) y
  pointer : ∀ x name y, A.pointer x = some (name, y) ↔ V.label x = some (.variable name) ∧ V.link x (.tentacle 0) y
  externals : ∀ i x, A.externals[i]? = some x ↔ V.ordinal x = some i

namespace Denotes

variable {V W : HeapView} {A B : HeapState} {x y : Nat} {s : Bytes}

theorem unique (ha : V.Denotes A) (hb : V.Denotes B) : A = B := by
  ext1
  · exact ha.nextId.trans hb.nextId.symm
  · funext x
    exact Option.ext fun type => (ha.nodeType x type).trans (hb.nodeType x type).symm
  · funext x s
    exact Option.ext fun y => (ha.selector x s y).trans (hb.selector x s y).symm
  · funext x
    exact Option.ext fun ⟨nt, ys⟩ => (ha.hyperedge x nt ys).trans (hb.hyperedge x nt ys).symm
  · funext x
    exact Option.ext fun ⟨name, y⟩ => (ha.pointer x name y).trans (hb.pointer x name y).symm
  · exact List.ext_getElem? fun i => Option.ext fun x => (ha.externals i x).trans (hb.externals i x).symm

theorem selector_eq_none (hd : V.Denotes A) : A.selector x s = none ↔ ∀ y, ¬ V.link x (.selector s) y := by
  simp only [Option.eq_none_iff_forall_ne_some, ne_eq, hd.selector]

theorem mem_externals (hd : V.Denotes A) : x ∈ A.externals ↔ ∃ i, V.ordinal x = some i := by
  simp only [List.mem_iff_getElem?, hd.externals]

theorem not_mem_externals (hd : V.Denotes A) : x ∉ A.externals ↔ V.ordinal x = none := by
  rw [hd.mem_externals, Option.eq_none_iff_forall_ne_some, not_exists]

theorem externals_nodup (hd : V.Denotes A) : A.externals.Nodup := by
  rw [List.nodup_iff_getElem?_ne_getElem?]
  intro i j hij hj heq
  have hx := List.getElem?_eq_getElem hj
  have hi := (hd.externals i _).mp (heq.trans hx)
  have := Option.some.inj (hi.symm.trans ((hd.externals j _).mp hx))
  omega

theorem isolated_iff (hd : V.Denotes A) (hp : V.Proper) (ht : V.Typed)
    (hedge : ∀ z nt, V.label z = some (.nonterminal nt) → ∃ ys, A.hyperedge z = some (nt, ys))
    {type : Bytes} (hx : V.label x = some (.node type)) :
    A.Isolated x ↔ (∀ l y, ¬ V.link x l y) ∧ ∀ y l, ¬ V.link y l x := by
  constructor
  · intro hi
    refine ⟨fun l y hl => ?_, fun y l hl => ?_⟩
    · have hsel := ht.fits x _ hx l ⟨y, hl⟩
      rw [← Heap.selector_name hsel] at hl
      exact hd.selector_eq_none.mp (hi.source l.name) y hl
    · obtain ⟨lab, hlab⟩ := hp.link_label _ _ _ hl
      have hfit := ht.fits y lab hlab
      cases lab with
      | node type' =>
        have hsel := hfit l ⟨x, hl⟩
        rw [← Heap.selector_name hsel] at hl
        exact hi.target y l.name ((hd.selector _ _ _).mpr hl)
      | nonterminal nt =>
        obtain ⟨ys, hys⟩ := hedge y nt hlab
        obtain ⟨k, -, hten⟩ := hfit
        obtain ⟨i, -, rfl⟩ := (hten l).mp ⟨x, hl⟩
        have hmem := (((hd.hyperedge y nt ys).mp hys).2 i x).mpr hl
        exact hi.tentacle y nt ys hys (List.mem_of_getElem? hmem)
      | «variable» name =>
        obtain rfl := (hfit l).mp ⟨x, hl⟩
        exact hi.pointer y name ((hd.pointer _ _ _).mpr ⟨hlab, hl⟩)
  · rintro ⟨hout, hin⟩
    refine ⟨fun s => hd.selector_eq_none.mpr fun y => hout _ y, fun y s hs => hin y _ ((hd.selector _ _ _).mp hs),
      fun y nt ys hys hmem => ?_, fun y name hn => hin y _ ((hd.pointer _ _ _).mp hn).2⟩
    obtain ⟨i, hi⟩ := List.mem_iff_getElem?.mp hmem
    exact hin y _ ((((hd.hyperedge y nt ys).mp hys).2 i x).mp hi)

theorem addNode (hd : V.Denotes A) (hp : V.Proper) (type : Bytes) :
    (V.insert (.node type)).Denotes (A.addNodes type 1) where
  nextId := by rw [HeapState.addNodes, hd.nextId]; rfl
  nodeType x type' := by
    simp only [HeapState.addNodes, hd.nextId]
    by_cases hx : x = V.nextId
    · subst hx
      simp
    · rw [if_neg (by omega), label_insert_of_ne V _ hx, hd.nodeType]
  selector := hd.selector
  hyperedge x nt ys := by
    refine (hd.hyperedge x nt ys).trans (and_congr_left fun _ => ?_)
    by_cases hx : x = V.nextId
    · subst hx
      simp [hp.label_nextId]
    · rw [label_insert_of_ne V _ hx]
  pointer x name y := by
    refine (hd.pointer x name y).trans (and_congr_left fun _ => ?_)
    by_cases hx : x = V.nextId
    · subst hx
      simp [hp.label_nextId]
    · rw [label_insert_of_ne V _ hx]
  externals := hd.externals

theorem getElem?_erase_externals (hd : V.Denotes A) (x : Nat) (j z : Nat) :
    (A.externals.erase x)[j]? = some z ↔ (V.delete x).ordinal z = some j := by
  cases ho : V.ordinal x with
  | none =>
    have hx : x ∉ A.externals := fun hm => by simpa [ho] using hd.mem_externals.mp hm
    simp only [List.erase_of_not_mem hx, hd.externals, delete, ho]
  | some i =>
    have hi := (hd.externals i x).mpr ho
    obtain ⟨hlt, rfl⟩ := List.getElem?_eq_some_iff.mp hi
    rw [hd.externals_nodup.erase_getElem, List.getElem?_eraseIdx]
    simp only [delete, ho, Heap.dropFrom_eq_some, ← hd.externals]
    by_cases hj : j < i
    · simp [hj, Nat.not_le.mpr hj]
    · simp [hj, Nat.not_lt.mp hj]

theorem removeNode (hd : V.Denotes A) {type : Bytes} (hx : V.label x = some (.node type))
    (hout : ∀ l y, ¬ V.link x l y) (hin : ∀ y l, ¬ V.link y l x) : (V.delete x).Denotes (A.removeNode x) := by
  have hlink (a : Nat) (l : EdgeLabel) (b : Nat) : (V.delete x).link a l b ↔ V.link a l b := by
    refine ⟨fun hl => hl.1, fun hl => ⟨hl, ?_, ?_⟩⟩
    · rintro rfl
      exact hout l b hl
    · rintro rfl
      exact hin a l hl
  have hlab (z : Nat) (lab : Label) (hn : ∀ type, lab ≠ .node type) :
      (V.delete x).label z = some lab ↔ V.label z = some lab := by
    by_cases hz : z = x
    · subst hz
      simpa [hx] using (hn type).symm
    · rw [label_delete_of_ne V hz]
  refine ⟨hd.nextId, fun z type' => ?_, fun z s y => ?_, fun z nt ys => ?_, fun z name y => ?_,
    hd.getElem?_erase_externals x⟩
  · by_cases hz : z = x
    · subst hz
      simp [HeapState.removeNode]
    · simp [HeapState.removeNode, hz, label_delete_of_ne V hz, hd.nodeType]
  · rw [hlink]
    exact hd.selector z s y
  · simp only [hlink, hlab z (.nonterminal nt) (by simp)]
    exact hd.hyperedge z nt ys
  · simp only [hlink, hlab z (.variable name) (by simp)]
    exact hd.pointer z name y

section Edge

variable {lab : Label}

theorem nodeType_delete (hd : V.Denotes A) (hx : V.label x = some lab) (hn : ∀ type, lab ≠ .node type) (z : Nat)
    (type : Bytes) : A.nodeType z = some type ↔ (V.delete x).label z = some (.node type) := by
  rw [hd.nodeType]
  by_cases hz : z = x
  · subst hz
    simpa [hx] using hn type
  · rw [label_delete_of_ne V hz]

theorem selector_delete (hd : V.Denotes A) (hp : V.Proper) (ht : V.Typed) (hx : V.label x = some lab)
    (hn : ∀ type, lab ≠ .node type) (z : Nat) (s : Bytes) (y : Nat) :
    A.selector z s = some y ↔ (V.delete x).link z (.selector s) y := by
  rw [hd.selector, link_delete_edge hp hx hn]
  refine (and_iff_left_of_imp ?_).symm
  rintro hl rfl
  obtain ⟨type, htype⟩ := ht.selector_source hp hl
  exact hn type (Option.some.inj (hx.symm.trans htype))

theorem removeHyperedge (hd : V.Denotes A) (hp : V.Proper) (ht : V.Typed) {nt : Nonterminal}
    (hx : V.label x = some (.nonterminal nt)) : (V.delete x).Denotes (A.setHyperedge x none) where
  nextId := hd.nextId
  nodeType := hd.nodeType_delete hx (by simp)
  selector := hd.selector_delete hp ht hx (by simp)
  hyperedge z nt' ys := by
    by_cases hz : z = x
    · subst hz
      simp [HeapState.setHyperedge]
    · simp [HeapState.setHyperedge, hz, label_delete_of_ne V hz, link_delete_edge hp hx, hd.hyperedge]
  pointer z name y := by
    by_cases hz : z = x
    · subst hz
      simp [HeapState.setHyperedge, hd.pointer, hx]
    · simp [HeapState.setHyperedge, hz, label_delete_of_ne V hz, link_delete_edge hp hx, hd.pointer]
  externals := by
    rw [ordinal_delete_edge hp hx (by simp)]
    exact hd.externals

theorem removePointer (hd : V.Denotes A) (hp : V.Proper) (ht : V.Typed) {name : Bytes}
    (hx : V.label x = some (.variable name)) : (V.delete x).Denotes (A.setPointer x none) where
  nextId := hd.nextId
  nodeType := hd.nodeType_delete hx (by simp)
  selector := hd.selector_delete hp ht hx (by simp)
  hyperedge z nt ys := by
    by_cases hz : z = x
    · subst hz
      simp [HeapState.setPointer, hd.hyperedge, hx]
    · simp [HeapState.setPointer, hz, label_delete_of_ne V hz, link_delete_edge hp hx, hd.hyperedge]
  pointer z name' y := by
    by_cases hz : z = x
    · subst hz
      simp [HeapState.setPointer]
    · simp [HeapState.setPointer, hz, label_delete_of_ne V hz, link_delete_edge hp hx, hd.pointer]
  externals := by
    rw [ordinal_delete_edge hp hx (by simp)]
    exact hd.externals

end Edge

theorem addSelector (hd : V.Denotes A) (hfree : ∀ z, ¬ V.link x (.selector s) z) :
    (V.addLinks (fun a l b => a = x ∧ l = .selector s ∧ b = y)).Denotes (A.setSelector x s (some y)) where
  nextId := hd.nextId
  nodeType := hd.nodeType
  selector a t b := by
    by_cases ha : a = x
    · subst ha
      by_cases ht : t = s
      · subst ht
        simp [HeapState.setSelector, addLinks, hfree, eq_comm]
      · simp [HeapState.setSelector, addLinks, ht, hd.selector]
    · simp [HeapState.setSelector, addLinks, ha, hd.selector]
  hyperedge a nt ys := by simpa [addLinks, HeapState.setSelector] using hd.hyperedge a nt ys
  pointer a name b := by simpa [addLinks, HeapState.setSelector] using hd.pointer a name b
  externals := hd.externals

theorem dropSelector (hd : V.Denotes A) : (V.dropLink x (.selector s)).Denotes (A.setSelector x s none) where
  nextId := hd.nextId
  nodeType := hd.nodeType
  selector a t b := by
    by_cases ha : a = x
    · subst ha
      by_cases ht : t = s
      · subst ht
        simp [HeapState.setSelector, dropLink]
      · simp [HeapState.setSelector, dropLink, ht, hd.selector]
    · simp [HeapState.setSelector, dropLink, ha, hd.selector]
  hyperedge a nt ys := by simpa [dropLink, HeapState.setSelector] using hd.hyperedge a nt ys
  pointer a name b := by simpa [dropLink, HeapState.setSelector] using hd.pointer a name b
  externals := hd.externals

theorem addExternal (hd : V.Denotes A) (ho : V.ordinal x = none) :
    { V with ordinal := Function.update V.ordinal x (some A.externals.length) : HeapView }.Denotes
      { A with externals := A.externals ++ [x] } := by
  refine ⟨hd.nextId, hd.nodeType, hd.selector, hd.hyperedge, hd.pointer, fun i z => ?_⟩
  have hx : x ∉ A.externals := fun hm => by simpa [ho] using hd.mem_externals.mp hm
  change (A.externals ++ [x])[i]? = some z ↔ Function.update V.ordinal x (some A.externals.length) z = some i
  by_cases hz : z = x
  · subst hz
    rw [List.getElem?_append, Function.update_self]
    split
    · rename_i hi
      refine iff_of_false (fun he => hx (List.mem_of_getElem? he)) ?_
      simp only [Option.some.injEq]
      omega
    · rename_i hi
      rw [List.getElem?_singleton]
      split <;> simp <;> omega
  · rw [Function.update_of_ne hz, ← hd.externals, List.getElem?_append]
    split
    · rfl
    · rename_i hi
      rw [List.getElem?_eq_none (Nat.not_lt.mp hi), List.getElem?_singleton]
      split <;> simp [Ne.symm hz]

theorem dropExternal (hd : V.Denotes A) {i : Nat} (ho : V.ordinal x = some i) :
    { V with ordinal := fun z => Heap.dropFrom i (V.ordinal z) : HeapView }.Denotes
      { A with externals := A.externals.erase x } := by
  refine ⟨hd.nextId, hd.nodeType, hd.selector, hd.hyperedge, hd.pointer, fun j z => ?_⟩
  refine (hd.getElem?_erase_externals x j z).trans ?_
  simp only [delete, ho]

section Attach

variable {lab : Label} {ys : List Nat}

theorem label_attach_self : (V.attach lab ys).label V.nextId = some lab := label_insert_self V lab

theorem label_attach_of_ne (hx : x ≠ V.nextId) : (V.attach lab ys).label x = V.label x := label_insert_of_ne V lab hx

theorem link_attach_self (hp : V.Proper) {l : EdgeLabel} :
    (V.attach lab ys).link V.nextId l y ↔ ∃ i, l = .tentacle i ∧ ys[i]? = some y := by
  simp [attach, addLinks, insert, hp.not_link_nextId]

theorem link_attach_of_ne (hx : x ≠ V.nextId) {l : EdgeLabel} : (V.attach lab ys).link x l y ↔ V.link x l y := by
  simp [attach, addLinks, insert, hx]

theorem nodeType_attach (hd : V.Denotes A) (hp : V.Proper) (hn : ∀ type, lab ≠ .node type) (z : Nat) (type : Bytes) :
    A.nodeType z = some type ↔ (V.attach lab ys).label z = some (.node type) := by
  rw [hd.nodeType]
  by_cases hz : z = V.nextId
  · subst hz
    simpa [label_attach_self, hp.label_nextId] using hn type
  · rw [label_attach_of_ne hz]

theorem selector_attach (hd : V.Denotes A) (hp : V.Proper) (z : Nat) (s : Bytes) (y : Nat) :
    A.selector z s = some y ↔ (V.attach lab ys).link z (.selector s) y := by
  rw [hd.selector]
  by_cases hz : z = V.nextId
  · subst hz
    simp [link_attach_self hp, hp.not_link_nextId]
  · rw [link_attach_of_ne hz]

theorem addHyperedge (hd : V.Denotes A) (hp : V.Proper) (nt : Nonterminal) (ys : List Nat) :
    (V.attach (.nonterminal nt) ys).Denotes (A.next.setHyperedge A.nextId (some (nt, ys))) := by
  refine ⟨congrArg (· + 1) hd.nextId, hd.nodeType_attach hp (by simp), hd.selector_attach hp, fun z nt' zs => ?_,
    fun z name y => ?_, hd.externals⟩
  · rw [hd.nextId]
    by_cases hz : z = V.nextId
    · subst hz
      simp only [HeapState.setHyperedge, Function.update_self, Option.some.injEq, Prod.mk.injEq, label_attach_self,
        Label.nonterminal.injEq, link_attach_self hp, EdgeLabel.tentacle.injEq, exists_eq_left']
      refine and_congr_right fun _ => ⟨fun he => by simp [he], fun he => ?_⟩
      exact List.ext_getElem? fun i => Option.ext fun y => (he i y).symm
    · simpa [HeapState.setHyperedge, HeapState.next, hz, label_attach_of_ne, link_attach_of_ne] using
        hd.hyperedge z nt' zs
  · by_cases hz : z = V.nextId
    · subst hz
      simp [HeapState.setHyperedge, HeapState.next, label_attach_self, hd.pointer, hp.label_nextId]
    · rw [label_attach_of_ne hz, link_attach_of_ne hz]
      exact hd.pointer z name y

theorem addPointer (hd : V.Denotes A) (hp : V.Proper) (name : Bytes) (y : Nat) :
    (V.attach (.variable name) [y]).Denotes (A.next.setPointer A.nextId (some (name, y))) := by
  refine ⟨congrArg (· + 1) hd.nextId, hd.nodeType_attach hp (by simp), hd.selector_attach hp, fun z nt zs => ?_,
    fun z name' b => ?_, hd.externals⟩
  · by_cases hz : z = V.nextId
    · subst hz
      simp [HeapState.setPointer, HeapState.next, label_attach_self, hd.hyperedge, hp.label_nextId]
    · simp only [label_attach_of_ne hz, link_attach_of_ne hz]
      exact hd.hyperedge z nt zs
  · rw [hd.nextId]
    by_cases hz : z = V.nextId
    · subst hz
      simp [HeapState.setPointer, label_attach_self, link_attach_self hp]
    · simpa [HeapState.setPointer, HeapState.next, hz, label_attach_of_ne, link_attach_of_ne] using
        hd.pointer z name' b

end Attach

theorem relabel (hd : V.Denotes A) {old : Nonterminal} {ys : List Nat} (hx : A.hyperedge x = some (old, ys))
    (nt : Nonterminal) : { V with label := Function.update V.label x (some (.nonterminal nt)) : HeapView }.Denotes
      (A.setHyperedge x (some (nt, ys))) := by
  obtain ⟨hlab, hys⟩ := (hd.hyperedge x old ys).mp hx
  refine ⟨hd.nextId, fun z type => ?_, hd.selector, fun z nt' zs => ?_, fun z name y => ?_, hd.externals⟩
  all_goals by_cases hz : z = x
  · subst hz
    simp [HeapState.setHyperedge, hd.nodeType, hlab]
  · simpa [HeapState.setHyperedge, hz] using hd.nodeType z type
  · subst hz
    simp only [HeapState.setHyperedge, Function.update_self, Option.some.injEq, Prod.mk.injEq, Label.nonterminal.injEq]
    refine and_congr_right fun _ => ⟨fun he => he ▸ hys, fun he => ?_⟩
    exact List.ext_getElem? fun i => Option.ext fun y => (hys i y).trans (he i y).symm
  · simpa [HeapState.setHyperedge, hz] using hd.hyperedge z nt' zs
  · subst hz
    simp [HeapState.setHyperedge, hd.pointer, hlab]
  · simpa [HeapState.setHyperedge, hz] using hd.pointer z name y

end Denotes

end HeapView

namespace Heap

variable {h : Heap} {v x y : Nat} {e : Element} {lab : Label} {kind : Kind}

theorem idAt_eq_ok : h.idAt v = .ok x ↔ h.idOf v = some x := by
  simp only [idAt, idOf]
  cases h.elements[v]? <;> simp

theorem mapM_idAt {ts : List Nat} (ht : ∀ t ∈ ts, ∃ y, h.idOf t = some y) :
    ∃ ys, ts.mapM h.idAt = .ok ys ∧ ts.map h.idOf = ys.map some := by
  have hat : ∀ t ∈ ts, ∃ y, h.idAt t = .ok y ∧ h.idOf t = some y := fun t hm =>
    (ht t hm).imp fun y hy => ⟨idAt_eq_ok.mpr hy, hy⟩
  obtain ⟨ys, hys, hall⟩ := mapM_forall₂ hat
  refine ⟨ys, hys, ?_⟩
  clear hys hat ht
  induction hall with
  | nil => rfl
  | cons hq _ ih => rw [List.map_cons, List.map_cons, hq, ih]

theorem getElem?_of_map_idOf {ts ys : List Nat} (hm : ts.map h.idOf = ys.map some) (i y : Nat) :
    ys[i]? = some y ↔ ∃ t, ts[i]? = some t ∧ h.idOf t = some y := by
  have hi : (ts[i]?).map h.idOf = (ys[i]?).map some := by rw [← List.getElem?_map, hm, List.getElem?_map]
  rw [← Option.map_eq_some_iff, hi]
  cases ys[i]? <;> simp

namespace Sound

theorem exists_find (hs : h.Sound) (hl : h.view.label x = some lab) : ∃ v e, h.find x lab.kind = .ok (v, e) ∧
    h.idOf v = some x ∧ h.elements[v]? = some e ∧ h.labelAt v = some lab ∧ e.label = lab := by
  obtain ⟨v, hid, hv⟩ := hs.view_label.mp hl
  obtain ⟨e, he, hr, rfl⟩ := labelAt_eq_some.mp hv
  exact ⟨v, e, find_eq hs hid he hr, hid, he, hv, rfl⟩

theorem find_of_kind_ne (hs : h.Sound) (hl : h.view.label x = some lab) (hk : lab.kind ≠ kind) :
    h.find x kind = .error (.wrongKind x lab.kind kind) := by
  obtain ⟨v, hid, hv⟩ := hs.view_label.mp hl
  obtain ⟨e, he, hr, rfl⟩ := labelAt_eq_some.mp hv
  simp [find, hs.slot?_eq hid hv, he, Element.kind, hk]

theorem find_of_unknown (hs : h.Sound) (hl : h.view.label x = none) : h.find x kind = .error (.unknownId x) := by
  have hslot : h.slot? x = none := by
    cases hv : h.slot? x with
    | none => rfl
    | some v =>
      obtain ⟨hid, lab, hlab⟩ := hs.slot?_eq_some.mp hv
      simp [hs.view_label.mpr ⟨v, hid, hlab⟩] at hl
  simp [find, hslot]

theorem toOption_find_bind (hs : h.Sound) {α : Type} (f : Nat × Element → Except HeapError α)
    (hl : ∀ lab, h.view.label x = some lab → lab.kind ≠ kind) : (h.find x kind >>= f).toOption = none := by
  cases hx : h.view.label x with
  | none =>
    rw [hs.find_of_unknown hx]
    rfl
  | some lab =>
    rw [hs.find_of_kind_ne hx (hl lab hx)]
    rfl

theorem nodeType_state (hs : h.Sound) (type : Bytes) :
    h.state.nodeType x = some type ↔ h.view.label x = some (.node type) := by
  by_cases hn : ∃ type', h.view.label x = some (.node type')
  · obtain ⟨type', hx⟩ := hn
    obtain ⟨v, e, hf, -, -, -, hlab⟩ := hs.exists_find hx
    have hq : h.nodeTypeOf x = .ok type' := by
      rw [nodeTypeOf, show Kind.node = (Label.node type').kind from rfl, hf, show type' = e.label.name by rw [hlab]; rfl]
      rfl
    simp [state, hq, hx, Except.toOption]
  · have hno : h.state.nodeType x = none := hs.toOption_find_bind _ fun lab hx hk => hn ?_
    · rw [hno]
      exact iff_of_false (by simp) fun hx => hn ⟨type, hx⟩
    · cases lab with
      | node type' => exact ⟨type', hx⟩
      | nonterminal nt => cases hk
      | «variable» name => cases hk

theorem selector_state (hs : h.Sound) (s : Bytes) :
    h.state.selector x s = some y ↔ (∃ type, h.view.label x = some (.node type)) ∧ h.view.link x (.selector s) y := by
  by_cases hn : ∃ type, h.view.label x = some (.node type)
  · obtain ⟨type, hx⟩ := hn
    obtain ⟨v, e, hf, hid, he, -, -⟩ := hs.exists_find hx
    change h.find x .node = _ at hf
    have htidy : Arc.Tidy e.arcs := out_eq he ▸ hs.tidy v
    simp only [hx, Option.some.injEq, Label.node.injEq, exists_eq', true_and, state, selectorTargetOf, hf]
    simp only [bind, Except.bind]
    cases ht : e.targetOf? (.selector s) with
    | none =>
      simp only [pure, Except.pure, Except.toOption, Option.join_some, reduceCtorEq, false_iff]
      rintro ⟨u, w, hu, -, hl⟩
      rw [hs.id_inj u v x hu hid, Linked, out_eq he] at hl
      exact Element.targetOf?_eq_none.mp ht w hl
    | some t =>
      have hl : h.Linked v (.selector s) t := by rw [Linked, out_eq he]; exact Element.carries_of_targetOf? ht
      obtain ⟨z, hz⟩ := hs.idOf_target hl
      simp only [idAt_eq_ok.mpr hz, Except.map_ok, Except.toOption, Option.join_some, Option.some.injEq]
      constructor
      · rintro rfl
        exact ⟨v, t, hid, hz, hl⟩
      · intro hy
        exact hs.proper.link_functional _ _ _ _ ⟨v, t, hid, hz, hl⟩ hy
  · have hno : (h.selectorTargetOf x s).toOption = none := hs.toOption_find_bind _ fun lab hx hk => hn ?_
    · simp [state, hno, hn]
    · cases lab with
      | node type => exact ⟨type, hx⟩
      | nonterminal nt => cases hk
      | «variable» name => cases hk

theorem idOf_externals (hs : h.Sound) : ∀ t ∈ h.externals, ∃ y, h.idOf t = some y := by
  intro t hm
  obtain ⟨j, hj⟩ := List.mem_iff_getElem?.mp hm
  obtain ⟨type, ht⟩ := hs.ordinal_node t j (hs.getElem?_externals.mp hj)
  exact idOf_of_labelAt ht

theorem externalNodes_eq (hs : h.Sound) : h.externalNodes = .ok h.state.externals := by
  obtain ⟨ys, hys, -⟩ := mapM_idAt hs.idOf_externals
  simp [state, externalNodes, hys, Except.toOption]

theorem externals_state (hs : h.Sound) (i x : Nat) : h.state.externals[i]? = some x ↔ h.view.ordinal x = some i := by
  obtain ⟨ys, hys, hmap⟩ := mapM_idAt hs.idOf_externals
  have hstate : h.state.externals = ys := by simp [state, externalNodes, hys, Except.toOption]
  rw [hstate, getElem?_of_map_idOf hmap, hs.view_ordinal]
  simp only [hs.getElem?_externals, and_comm]

end Sound

namespace WellFormed

theorem exists_attachedNodes (hw : h.WellFormed) {nt : Nonterminal} (hx : h.view.label x = some (.nonterminal nt)) :
    ∃ ys : List Nat, h.attachedNodesOf x = .ok ys ∧ (ys.length : Int) = nt.rank ∧
      ∀ i y : Nat, ys[i]? = some y ↔ h.view.link x (.tentacle i) y := by
  have hs := hw.toSound
  obtain ⟨v, e, hf, hid, he, hl, hlab⟩ := hs.exists_find hx
  change h.find x .nonterminal = _ at hf
  obtain ⟨targets, hts, hlen, hget⟩ := hw.tentacleSlots he hl hlab
  have htarget : ∀ t ∈ targets, ∃ y, h.idOf t = some y := by
    intro t hm
    obtain ⟨i, hi⟩ := List.mem_iff_getElem?.mp hm
    exact hs.idOf_target ((hget i t).mp hi)
  obtain ⟨ys, hys, hmap⟩ := mapM_idAt htarget
  refine ⟨ys, ?_, ?_, fun i y => ?_⟩
  · simp only [attachedNodesOf, hf, hts, bind, Except.bind]
    exact hys
  · rw [← hlen]
    simpa using (congrArg List.length hmap).symm
  · rw [getElem?_of_map_idOf hmap]
    simp only [hget]
    constructor
    · rintro ⟨t, hl, hy⟩
      exact ⟨v, t, hid, hy, hl⟩
    · rintro ⟨u, t, hu, hy, hl⟩
      exact ⟨t, hs.id_inj u v x hu hid ▸ hl, hy⟩

theorem exists_variableTarget (hw : h.WellFormed) {name : Bytes} (hx : h.view.label x = some (.variable name)) :
    ∃ y, h.variableTargetOf x = .ok y ∧ h.view.link x (.tentacle 0) y := by
  have hs := hw.toSound
  obtain ⟨v, e, hf, hid, he, hl, -⟩ := hs.exists_find hx
  change h.find x .variable = _ at hf
  have hfit := hw.fits hl
  obtain ⟨w, hlw⟩ := (hfit (.tentacle 0)).mpr rfl
  cases harcs : e.arcs with
  | nil => simp [Linked, out_eq he, harcs] at hlw
  | cons a rest =>
    have hj : h.Joined v a.target := by simp [Joined, out_eq he, harcs]
    obtain ⟨l, hla⟩ := hs.joined_iff.mp hj
    obtain rfl := (hfit l).mp ⟨_, hla⟩
    obtain ⟨y, hy⟩ := hs.idOf_target hla
    refine ⟨y, ?_, v, a.target, hid, hy, hla⟩
    simp [variableTargetOf, hf, harcs, bind, Except.bind, idAt_eq_ok.mpr hy]

theorem hyperedge_state (hw : h.WellFormed) (nt : Nonterminal) (ys : List Nat) : h.state.hyperedge x = some (nt, ys) ↔
    h.view.label x = some (.nonterminal nt) ∧ ∀ i y : Nat, ys[i]? = some y ↔ h.view.link x (.tentacle i) y := by
  have hs := hw.toSound
  by_cases hn : ∃ nt', h.view.label x = some (.nonterminal nt')
  · obtain ⟨nt', hx⟩ := hn
    obtain ⟨v, e, hf, -, -, -, hlab⟩ := hs.exists_find hx
    change h.find x .nonterminal = _ at hf
    obtain ⟨zs, hzs, -, hget⟩ := hw.exists_attachedNodes hx
    have hnt : h.nonterminalOf x = .ok nt' := by
      simp [nonterminalOf, hf, hlab, bind, Except.bind, pure, Except.pure, Label.name, Label.rank]
    have hstate : h.state.hyperedge x = some (nt', zs) := by
      simp [state, hnt, hzs, bind, Except.bind, pure, Except.pure, Except.toOption]
    simp only [hstate, Option.some.injEq, Prod.mk.injEq, hx, Label.nonterminal.injEq, ← hget]
    refine and_congr_right fun _ => ⟨fun he => by simp [he], fun he => ?_⟩
    exact List.ext_getElem? fun i => Option.ext fun y => (he i y).symm
  · have hno : (h.nonterminalOf x).toOption = none := hs.toOption_find_bind _ fun lab hx hk => hn ?_
    · have hstate : h.state.hyperedge x = none := by
        cases hq : h.nonterminalOf x with
        | ok nt' => simp [hq, Except.toOption] at hno
        | error err => simp [state, hq, bind, Except.bind, Except.toOption]
      rw [hstate]
      exact iff_of_false (by simp) fun hx => hn ⟨nt, hx.1⟩
    · obtain ⟨nt', rfl⟩ := exists_nonterminal hk
      exact ⟨nt', hx⟩

theorem pointer_state (hw : h.WellFormed) (name : Bytes) (y : Nat) : h.state.pointer x = some (name, y) ↔
    h.view.label x = some (.variable name) ∧ h.view.link x (.tentacle 0) y := by
  have hs := hw.toSound
  by_cases hn : ∃ name', h.view.label x = some (.variable name')
  · obtain ⟨name', hx⟩ := hn
    obtain ⟨v, e, hf, -, -, -, hlab⟩ := hs.exists_find hx
    change h.find x .variable = _ at hf
    obtain ⟨z, hz, hl⟩ := hw.exists_variableTarget hx
    have hname : h.variableNameOf x = .ok name' := by
      simp [variableNameOf, hf, hlab, bind, Except.bind, pure, Except.pure, Label.name]
    have hstate : h.state.pointer x = some (name', z) := by
      simp [state, hname, hz, bind, Except.bind, pure, Except.pure, Except.toOption]
    simp only [hstate, Option.some.injEq, Prod.mk.injEq, hx, Label.variable.injEq]
    refine and_congr_right fun _ => ⟨fun he => he ▸ hl, fun he => ?_⟩
    exact hs.proper.link_functional _ _ _ _ hl he
  · have hno : (h.variableNameOf x).toOption = none := hs.toOption_find_bind _ fun lab hx hk => hn ?_
    · have hstate : h.state.pointer x = none := by
        cases hq : h.variableNameOf x with
        | ok name' => simp [hq, Except.toOption] at hno
        | error err => simp [state, hq, bind, Except.bind, Except.toOption]
      rw [hstate]
      exact iff_of_false (by simp) fun hx => hn ⟨name, hx.1⟩
    · cases lab with
      | node type => cases hk
      | nonterminal nt => cases hk
      | «variable» name' => exact ⟨name', hx⟩

theorem denotes (hw : h.WellFormed) : h.view.Denotes h.state where
  nextId := rfl
  nodeType _ := hw.toSound.nodeType_state
  selector x s y := by
    rw [hw.toSound.selector_state]
    exact and_iff_right_of_imp fun hl => (hw.toSound.wellFormed_iff.mp hw).selector_source hw.toSound.proper hl
  hyperedge _ := hw.hyperedge_state
  pointer _ := hw.pointer_state
  externals := hw.toSound.externals_state

theorem kind?_state (hw : h.WellFormed) (x : Nat) : h.state.kind? x = (h.view.label x).map Label.kind := by
  have hd := hw.denotes
  have hnode (hx : ∀ type, h.view.label x ≠ some (.node type)) : h.state.nodeType x = none :=
    Option.eq_none_iff_forall_ne_some.mpr fun type ht => hx type ((hd.nodeType x type).mp ht)
  have hedge (hx : ∀ nt, h.view.label x ≠ some (.nonterminal nt)) : h.state.hyperedge x = none :=
    Option.eq_none_iff_forall_ne_some.mpr fun ⟨nt, ys⟩ ht => hx nt ((hd.hyperedge x nt ys).mp ht).1
  have hptr (hx : ∀ name, h.view.label x ≠ some (.variable name)) : h.state.pointer x = none :=
    Option.eq_none_iff_forall_ne_some.mpr fun ⟨name, y⟩ ht => hx name ((hd.pointer x name y).mp ht).1
  cases hx : h.view.label x with
  | none => simp [HeapState.kind?, hnode, hedge, hptr, hx]
  | some lab =>
    cases lab with
    | node type => simp [HeapState.kind?, (hd.nodeType x type).mpr hx, Label.kind]
    | nonterminal nt =>
      obtain ⟨ys, -, -, hget⟩ := hw.exists_attachedNodes hx
      simp [HeapState.kind?, hnode, hx, (hd.hyperedge x nt ys).mpr ⟨hx, hget⟩, Label.kind]
    | «variable» name =>
      obtain ⟨y, -, hl⟩ := hw.exists_variableTarget hx
      simp [HeapState.kind?, hnode, hedge, hx, (hd.pointer x name y).mpr ⟨hx, hl⟩, Label.kind]

section View

variable {k : Heap} (hw : h.WellFormed) (hk : k.WellFormed) (hst : k.state = h.state)

include hw hk hst

end View

end WellFormed

def byId (h : Heap) (f : Nat → Nat) (x : Nat) : Nat := ((h.slot? x).map f).getD 0

namespace Sound

variable {f : Nat → Nat} {z : Nat} {l : EdgeLabel}

theorem byId_eq (hs : h.Sound) (f : Nat → Nat) (hid : h.idOf v = some x) (hl : h.labelAt v = some lab) :
    h.byId f x = f v := by
  rw [byId, hs.slot?_eq hid hl, Option.map_some, Option.getD_some]

theorem exists_label_byId (hs : h.Sound) :
    (∃ a, h.view.label a = some lab ∧ h.view.ordinal a = none ∧ h.byId f a = y) ↔
      ∃ p, h.labelAt p = some lab ∧ h.ordinalAt p = none ∧ f p = y := by
  constructor
  · rintro ⟨a, hl, ho, rfl⟩
    obtain ⟨p, hid, hl⟩ := hs.view_label.mp hl
    exact ⟨p, hl, by rw [← hs.view_ordinal_of_idOf hid, ho], (hs.byId_eq f hid hl).symm⟩
  · rintro ⟨p, hl, ho, rfl⟩
    obtain ⟨a, hid⟩ := idOf_of_labelAt hl
    exact ⟨a, hs.view_label.mpr ⟨p, hid, hl⟩, by rw [hs.view_ordinal_of_idOf hid, ho], hs.byId_eq f hid hl⟩

theorem exists_link_byId (hs : h.Sound) : (∃ a b, h.view.link a l b ∧ h.byId f a = y ∧ h.byId f b = z) ↔
    ∃ p q, h.Linked p l q ∧ f p = y ∧ f q = z := by
  constructor
  · rintro ⟨a, b, ⟨p, q, hp, hq, hl⟩, rfl, rfl⟩
    obtain ⟨lab, hlp⟩ := hs.labelAt_of_joined hl.joined
    obtain ⟨type, hlq⟩ := hs.ends p q hl.joined
    exact ⟨p, q, hl, (hs.byId_eq f hp hlp).symm, (hs.byId_eq f hq hlq).symm⟩
  · rintro ⟨p, q, hl, rfl, rfl⟩
    obtain ⟨lab, hlp⟩ := hs.labelAt_of_joined hl.joined
    obtain ⟨type, hlq⟩ := hs.ends p q hl.joined
    obtain ⟨a, ha⟩ := idOf_of_labelAt hlp
    obtain ⟨b, hb⟩ := idOf_of_labelAt hlq
    exact ⟨a, b, ⟨p, q, ha, hb, hl⟩, hs.byId_eq f ha hlp, hs.byId_eq f hb hlq⟩

theorem externals_byId (hs : h.Sound) : h.state.externals.map (h.byId f) = h.externals.map f := by
  refine List.ext_getElem? fun i => Option.ext fun y => ?_
  simp only [List.getElem?_map, Option.map_eq_some_iff, hs.externals_state, hs.getElem?_externals, hs.view_ordinal]
  constructor
  · rintro ⟨a, ⟨p, hid, ho⟩, rfl⟩
    obtain ⟨type, hl⟩ := hs.ordinal_node p i ho
    exact ⟨p, ho, (hs.byId_eq f hid hl).symm⟩
  · rintro ⟨p, ho, rfl⟩
    obtain ⟨type, hl⟩ := hs.ordinal_node p i ho
    obtain ⟨a, hid⟩ := idOf_of_labelAt hl
    exact ⟨a, ⟨p, hid, ho⟩, hs.byId_eq f hid hl⟩

end Sound

end Heap

end HeapAbstraction
