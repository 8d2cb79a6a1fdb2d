import LevelzAsync.ConcurrentFifoList

/-!
# The chain of the concurrent FIFO list in every reachable state

`Shape s o` says what head, tail, next pointers and the threads' program points
look like when `o` names the thread that has taken `m_head` and not yet handed
it over, with the node it took. That node, if any, followed by the queue is the
chain; a link missing in it is one that some `enqueue` is about to write.
-/

namespace LevelzAsync.ConcurrentFifoList

variable {Thread Node : Type*}

namespace Pc

def held : Pc Node → Option Node
  | checkTaken h | loadNext h | storeHead h _ | checkLast h | casTail h | spinNext h
  | checkHandOver h | reloadNext h | restoreHead h _ => some h
  | _ => none

def link : Pc Node → Option (Node × Node)
  | checkOldTail node oldTail | linkOldTail node oldTail => some (oldTail, node)
  | _ => none

/-- The node that an `enqueue` on an empty list has yet to publish as head. -/
def opens : Pc Node → Option Node
  | checkHead node | swapHead node => some node
  | _ => none

def owns : Pc Node → Option Node
  | clearNext node | swapTail node | clearOldHead node | countDown node => some node
  | _ => none

/-- Everything that the chain depends on in a program point. -/
def standing (p : Pc Node) :
    Option Node × Option (Node × Node) × Option Node × Option Node :=
  (p.held, p.link, p.opens, p.owns)

/-- The node whose next pointer the thread knows something about. -/
def watches : Pc Node → Option Node
  | swapTail node => some node
  | storeHead h (some _) | checkHandOver h | reloadNext h | restoreHead h _ => some h
  | _ => none

/-- What the thread knows about the pointer it watches. -/
def Fits (next : Node → Option Node) : Pc Node → Prop
  | swapTail node => next node = none
  | storeHead h (some y) => next h = some y
  | checkHandOver h | reloadNext h => next h ≠ none
  | restoreHead h newHead => newHead ≠ none ∧ next h = newHead
  | aborted => False
  | _ => True

theorem Fits.congr {next next' : Node → Option Node} {p : Pc Node} (hp : p.Fits next)
    (he : ∀ n, p.watches = some n → next' n = next n) : p.Fits next' := by
  cases p with
  | storeHead h newHead =>
      cases newHead with
      | none => trivial
      | some y => exact (he h rfl).trans hp
  | swapTail node => exact (he node rfl).trans hp
  | checkHandOver h => exact fun hn => hp ((he h rfl).symm.trans hn)
  | reloadNext h => exact fun hn => hp ((he h rfl).symm.trans hn)
  | restoreHead h newHead => exact ⟨hp.1, (he h rfl).trans hp.2⟩
  | aborted => exact hp
  | _ => trivial

theorem watches_cases {next : Node → Option Node} {p : Pc Node} {n : Node}
    (hw : p.watches = some n) (hp : p.Fits next) :
    p.owns = some n ∨ p.held = some n ∧ next n ≠ none := by
  cases p with
  | storeHead h newHead =>
      cases newHead with
      | none => simp [watches] at hw
      | some y => simp_all [watches, held, Fits]
  | restoreHead h newHead => simp_all [watches, held, Fits]
  | _ => simp_all [watches, owns, held, Fits]

end Pc

namespace State

/-- The link from `x` to `y` is written, or an `enqueue` is about to write it. -/
def Linked (s : State Thread Node) (x y : Node) : Prop :=
  s.next x = some y ∨ ∃ t, (s.pc t).link = some (x, y)

def chain (s : State Thread Node) (o : Option (Thread × Node)) : List Node :=
  (o.map Prod.snd).toList ++ s.queue

@[simp] theorem chain_none (s : State Thread Node) : s.chain none = s.queue := rfl

@[simp] theorem chain_some (s : State Thread Node) (t : Thread) (h : Node) :
    s.chain (some (t, h)) = h :: s.queue := rfl

end State

structure Shape (s : State Thread Node) (o : Option (Thread × Node)) : Prop where
  held : ∀ t h, (s.pc t).held = some h ↔ o = some (t, h)
  order : s.enqueueOrder = s.dequeueOrder ++ s.queue
  nodup : (s.chain o).Nodup
  tail : s.tail = (s.chain o).getLast?
  last : ∀ x, (s.chain o).getLast? = some x → s.next x = none
  linked : (s.chain o).IsChain s.Linked
  link : ∀ t x y, (s.pc t).link = some (x, y) → s.next x = none ∧ [x, y] <:+: s.chain o
  link_unique : ∀ t t' x y y',
    (s.pc t).link = some (x, y) → (s.pc t').link = some (x, y') → t = t'
  head_held : o ≠ none → s.head = none
  head_free : o = none → s.head = s.queue.head? ∨ s.head = none ∧ ∃ t n, (s.pc t).opens = some n
  opens : ∀ t n, (s.pc t).opens = some n → o = none ∧ s.head = none ∧ s.queue.head? = some n
  opens_unique : ∀ t t' n n', (s.pc t).opens = some n → (s.pc t').opens = some n' → t = t'
  owns : ∀ t n, (s.pc t).owns = some n → n ∉ s.chain o
  owns_unique : ∀ t t' n, (s.pc t).owns = some n → (s.pc t').owns = some n → t = t'
  listed : ∀ n, n ∈ s.chain o → s.listed n = true
  owns_listed : ∀ t n, (s.pc t).owns = some n → s.listed n = true
  fits : ∀ t, (s.pc t).Fits s.next

/-- The parts of the state that the chain is made of are unchanged. -/
structure SameMemory (s s' : State Thread Node) : Prop where
  head : s'.head = s.head
  tail : s'.tail = s.tail
  next : s'.next = s.next
  enqueueOrder : s'.enqueueOrder = s.enqueueOrder
  dequeueOrder : s'.dequeueOrder = s.dequeueOrder

section Lists

variable {α : Type*}

theorem getLast?_ne_of_adjacent {l : List α} {x y : α} (hl : l.Nodup) (hxy : [x, y] <:+: l) :
    l.getLast? ≠ some x := by
  obtain ⟨a, b, rfl⟩ := hxy
  intro hlast
  rw [List.append_assoc, List.cons_append, List.cons_append, List.nil_append] at hl hlast
  have hx : x ∈ y :: b := by
    rw [List.getLast?_append_of_ne_nil _ (by simp), List.getLast?_cons_cons] at hlast
    exact List.mem_of_getLast? hlast
  exact (List.nodup_cons.mp hl.of_append_right).1 hx

theorem adjacent_tail_of_ne {l : List α} {a x y : α} (hxy : [x, y] <:+: a :: l) (hx : x ≠ a) :
    [x, y] <:+: l := by
  rcases List.infix_cons_iff.mp hxy with hp | hi
  · exact absurd (List.cons_prefix_cons.mp hp).1 hx
  · exact hi

end Lists

section Steps

variable {s s' : State Thread Node} {o : Option (Thread × Node)} {t : Thread} {h : Node}
  {p : Pc Node}

/-- What a thread is doing to the chain survives a step of another thread. -/
theorem update_same [DecidableEq Thread] {β : Type*} (f : Pc Node → β) (hp : f p = f (s.pc t))
    (hpc : s'.pc = Function.update s.pc t p) (t' : Thread) : f (s'.pc t') = f (s.pc t') := by
  rw [hpc]
  by_cases ht : t' = t
  · subst t'
    rw [Function.update_self, hp]
  · rw [Function.update_of_ne ht]

theorem SameMemory.queue (hm : SameMemory s s') : s'.queue = s.queue := by
  rw [State.queue, hm.enqueueOrder, hm.dequeueOrder, State.queue]

theorem SameMemory.chain (hm : SameMemory s s') (o : Option (Thread × Node)) :
    s'.chain o = s.chain o := by
  rw [State.chain, hm.queue, State.chain]

theorem Shape.queue_concat (hs : Shape s o) (henq : s'.enqueueOrder = s.enqueueOrder ++ [h])
    (hdeq : s'.dequeueOrder = s.dequeueOrder) : s'.queue = s.queue ++ [h] := by
  have hlen : s.dequeueOrder.length ≤ s.enqueueOrder.length := by
    rw [hs.order, List.length_append]
    omega
  rw [State.queue, henq, hdeq, List.drop_append_of_le_length hlen, State.queue]

theorem State.queue_tail (henq : s'.enqueueOrder = s.enqueueOrder)
    (hdeq : s'.dequeueOrder = s.dequeueOrder ++ [h]) : s'.queue = s.queue.tail := by
  rw [State.queue, henq, hdeq, List.length_append, List.length_singleton, ← List.drop_drop,
    List.drop_one, State.queue]

/-- A null tail means that nothing is queued and nobody holds a node. -/
theorem Shape.queue_of_tail (hs : Shape s o) (ht : s.tail = none) : s.queue = [] := by
  have hchain := List.getLast?_eq_none_iff.mp (hs.tail.symm.trans ht)
  exact (List.append_eq_nil_iff.mp hchain).2

/-- The next pointer of the held node is the head of the queue, once written. -/
theorem Shape.queue_of_next (hs : Shape s (some (t, h))) {y : Node} (hy : s.next h = some y) :
    ∃ rest, s.queue = y :: rest := by
  have hlinked := hs.linked
  rw [State.chain_some] at hlinked
  cases hq : s.queue with
  | nil =>
      have hlast := hs.last h (by rw [State.chain_some, hq]; rfl)
      rw [hlast] at hy
      cases hy
  | cons z rest =>
      rw [hq, List.isChain_cons_cons] at hlinked
      rcases hlinked.1 with hz | ⟨t', ht'⟩
      · rw [hz] at hy
        obtain rfl : z = y := Option.some.inj hy
        exact ⟨rest, rfl⟩
      · rw [(hs.link t' h z ht').1] at hy
        cases hy

/-- A head that is set is the first of the queue, and no call is about to set it. -/
theorem Shape.queue_of_head (hs : Shape s o) (hh : s.head = some h) :
    o = none ∧ (∃ rest, s.queue = h :: rest) ∧ ∀ t' m, (s.pc t').opens ≠ some m := by
  have ho : o = none := by
    by_contra hne
    rw [hs.head_held hne] at hh
    cases hh
  refine ⟨ho, ?_, ?_⟩
  · rcases hs.head_free ho with hq | ⟨hn, _⟩
    · rw [hh] at hq
      exact (List.head?_eq_some_iff.mp hq.symm)
    · rw [hn] at hh
      cases hh
  · intro t' m hm
    rw [(hs.opens t' m hm).2.1] at hh
    cases hh

variable [DecidableEq Thread]

theorem other_of_none {β : Type*} (f : Pc Node → Option β) (hp : f p = none)
    (hpc : s'.pc = Function.update s.pc t p) {t' : Thread} {b : β} (hb : f (s'.pc t') = some b) :
    t' ≠ t ∧ f (s.pc t') = some b := by
  by_cases ht : t' = t
  · subst t'
    rw [hpc, Function.update_self, hp] at hb
    cases hb
  · exact ⟨ht, by rwa [hpc, Function.update_of_ne ht] at hb⟩

theorem self_or_other {β : Type*} (f : Pc Node → Option β) {b c : β} (hp : f p = some b)
    (hpc : s'.pc = Function.update s.pc t p) {t' : Thread} (hc : f (s'.pc t') = some c) :
    (t' = t ∧ c = b) ∨ (t' ≠ t ∧ f (s.pc t') = some c) := by
  by_cases ht : t' = t
  · subst t'
    rw [hpc, Function.update_self, hp] at hc
    exact .inl ⟨rfl, (Option.some.inj hc).symm⟩
  · exact .inr ⟨ht, by rwa [hpc, Function.update_of_ne ht] at hc⟩

theorem fits_of_update (hpc : s'.pc = Function.update s.pc t p) {next : Node → Option Node}
    (hp : p.Fits next) (hother : ∀ t', t' ≠ t → (s.pc t').Fits next) (t' : Thread) :
    (s'.pc t').Fits next := by
  rw [hpc]
  by_cases ht : t' = t
  · subst t'
    rwa [Function.update_self]
  · rw [Function.update_of_ne ht]
    exact hother t' ht

/-- Steps that leave the chain alone: only the thread's program point moves, and
it may let go of a node that only it could reach. -/
theorem Shape.frame (hs : Shape s o) (hm : SameMemory s s')
    (hpc : s'.pc = Function.update s.pc t p) (hheld : p.held = (s.pc t).held)
    (hlink : p.link = (s.pc t).link) (hopens : p.opens = (s.pc t).opens)
    (howns : ∀ n, p.owns = some n → (s.pc t).owns = some n)
    (hlisted : ∀ n, s.listed n = true → (s.pc t).owns ≠ some n ∨ p.owns = some n →
      s'.listed n = true)
    (hfits : p.Fits s.next) : Shape s' o := by
  have hh := update_same Pc.held hheld hpc
  have hl := update_same Pc.link hlink hpc
  have ho := update_same Pc.opens hopens hpc
  have hw : ∀ t' n, (s'.pc t').owns = some n → (s.pc t').owns = some n := by
    intro t' n h
    by_cases ht : t' = t
    · subst t'
      rw [hpc, Function.update_self] at h
      exact howns n h
    · rwa [hpc, Function.update_of_ne ht] at h
  have hc := hm.chain o
  have hlinked : s'.Linked = s.Linked := by
    funext x y
    simp only [State.Linked, hm.next, hl]
  refine
    { held := by simpa only [hh] using hs.held
      order := by rw [hm.queue, hm.enqueueOrder, hm.dequeueOrder]; exact hs.order
      nodup := hc ▸ hs.nodup
      tail := by rw [hm.tail, hc]; exact hs.tail
      last := by rw [hm.next, hc]; exact hs.last
      linked := by rw [hlinked, hc]; exact hs.linked
      link := by simpa only [hl, hm.next, hc] using hs.link
      link_unique := by simpa only [hl] using hs.link_unique
      head_held := by rw [hm.head]; exact hs.head_held
      head_free := by simpa only [ho, hm.head, hm.queue] using hs.head_free
      opens := by simpa only [ho, hm.head, hm.queue] using hs.opens
      opens_unique := by simpa only [ho] using hs.opens_unique
      owns := fun t' n h => by rw [hc]; exact hs.owns t' n (hw t' n h)
      owns_unique := fun t₁ t₂ n h₁ h₂ => hs.owns_unique t₁ t₂ n (hw t₁ n h₁) (hw t₂ n h₂)
      listed := ?_
      owns_listed := ?_
      fits := ?_ }
  · intro n hn
    rw [hc] at hn
    exact hlisted n (hs.listed n hn) (.inl fun h => hs.owns t n h hn)
  · intro t' n h
    have hold := hw t' n h
    apply hlisted n (hs.owns_listed t' n hold)
    by_cases ht : t' = t
    · subst t'
      exact .inr (by rwa [hpc, Function.update_self] at h)
    · exact .inl fun hn => ht (hs.owns_unique t' t n hold hn)
  · rw [hm.next]
    exact fits_of_update hpc hfits fun t' _ => hs.fits t'

theorem Shape.goto {q : Pc Node} (hs : Shape s o) (hq : s.pc t = q)
    (hp : p.standing = q.standing) (hfits : p.Fits s.next) : Shape (s.goto t p) o := by
  subst hq
  obtain ⟨hheld, hlink, hopens, howns⟩ : p.held = (s.pc t).held ∧ p.link = (s.pc t).link ∧
      p.opens = (s.pc t).opens ∧ p.owns = (s.pc t).owns := by
    simpa only [Pc.standing, Prod.mk.injEq] using hp
  exact hs.frame ⟨rfl, rfl, rfl, rfl, rfl⟩ rfl hheld hlink hopens (fun _ h => howns ▸ h)
    (fun _ h _ => h) hfits

theorem Shape.clearOwned [DecidableEq Node] {n : Node} (hs : Shape s o)
    (hown : (s.pc t).owns = some n) (howns : p.owns = some n)
    (hheld : p.held = (s.pc t).held) (hlink : p.link = (s.pc t).link)
    (hopens : p.opens = (s.pc t).opens) (hfits : ∀ next, next n = none → p.Fits next) :
    Shape { s.goto t p with next := Function.update s.next n none } o := by
  have hn : n ∉ s.chain o := hs.owns t n hown
  have hne : ∀ x ∈ s.chain o, Function.update s.next n none x = s.next x := by
    intro x hx
    apply Function.update_of_ne
    rintro rfl
    exact hn hx
  let s₁ := s.goto t p
  have h₁ : ∀ t', (s₁.pc t').held = (s.pc t').held := update_same Pc.held hheld rfl
  have h₂ : ∀ t', (s₁.pc t').link = (s.pc t').link := update_same Pc.link hlink rfl
  have h₃ : ∀ t', (s₁.pc t').opens = (s.pc t').opens := update_same Pc.opens hopens rfl
  have h₄ : ∀ t', (s₁.pc t').owns = (s.pc t').owns :=
    update_same Pc.owns (howns.trans hown.symm) rfl
  refine
    { held := fun t' m => by rw [show _ = _ from h₁ t']; exact hs.held t' m
      order := hs.order
      nodup := hs.nodup
      tail := hs.tail
      last := fun x hx => (hne x (List.mem_of_getLast? hx)).trans (hs.last x hx)
      linked := ?_
      link := ?_
      link_unique := fun t₁ t₂ x y y' hx hy =>
        hs.link_unique t₁ t₂ x y y' ((h₂ t₁).symm.trans hx) ((h₂ t₂).symm.trans hy)
      head_held := hs.head_held
      head_free := fun ho => (hs.head_free ho).imp_right
        fun ⟨hh, t', m, hm⟩ => ⟨hh, t', m, (h₃ t').trans hm⟩
      opens := fun t' m hm => hs.opens t' m ((h₃ t').symm.trans hm)
      opens_unique := fun t₁ t₂ x y hx hy =>
        hs.opens_unique t₁ t₂ x y ((h₃ t₁).symm.trans hx) ((h₃ t₂).symm.trans hy)
      owns := fun t' m hm => hs.owns t' m ((h₄ t').symm.trans hm)
      owns_unique := fun t₁ t₂ m hx hy =>
        hs.owns_unique t₁ t₂ m ((h₄ t₁).symm.trans hx) ((h₄ t₂).symm.trans hy)
      listed := hs.listed
      owns_listed := fun t' m hm => hs.owns_listed t' m ((h₄ t').symm.trans hm)
      fits := ?_ }
  · refine hs.linked.imp_of_mem_imp fun x y hx _ hxy => ?_
    rcases hxy with hxy | ⟨t', ht'⟩
    · exact .inl ((hne x hx).trans hxy)
    · exact .inr ⟨t', (h₂ t').trans ht'⟩
  · intro t' x y h
    have hxy := hs.link t' x y ((h₂ t').symm.trans h)
    exact ⟨(hne x (hxy.2.mem (by simp))).trans hxy.1, hxy.2⟩
  · change ∀ t', (s₁.pc t').Fits _
    refine fits_of_update rfl (hfits _ (Function.update_self ..)) fun t' ht => ?_
    refine (hs.fits t').congr fun m hm => Function.update_of_ne ?_ _ _
    rintro rfl
    rcases Pc.watches_cases hm (hs.fits t') with ho | ⟨hh, _⟩
    · exact ht (hs.owns_unique t' t m ho hown)
    · obtain rfl := (hs.held t' m).mp hh
      exact hn (by simp)

/-- What the exchange of `m_tail` for a node changes: the thread has a link to
write from the old tail, or the head to publish in an empty list. -/
structure Appends (s s' : State Thread Node) (o : Option (Thread × Node)) (t : Thread)
    (node : Node) : Prop where
  next : s'.next = s.next
  head : s'.head = s.head
  queue : s'.queue = s.queue ++ [node]
  other : ∀ t', t' ≠ t → s'.pc t' = s.pc t'
  link : ∀ x y, (s'.pc t).link = some (x, y) ↔ y = node ∧ (s.chain o).getLast? = some x
  opens : ∀ m, (s'.pc t).opens = some m ↔ m = node ∧ s.chain o = []
  quiet : (s.pc t).link = none ∧ (s.pc t).opens = none

section Appends

variable {node : Node}

omit [DecidableEq Thread] in
theorem Appends.chain (ha : Appends s s' o t node) : s'.chain o = s.chain o ++ [node] := by
  rw [State.chain, ha.queue, ← List.append_assoc, State.chain]

theorem Appends.link_cases (ha : Appends s s' o t node) {t' : Thread} {x y : Node}
    (h : (s'.pc t').link = some (x, y)) :
    (s.pc t').link = some (x, y) ∨ t' = t ∧ y = node ∧ (s.chain o).getLast? = some x := by
  by_cases ht : t' = t
  · subst ht
    exact .inr ⟨rfl, (ha.link x y).mp h⟩
  · exact .inl (ha.other t' ht ▸ h)

theorem Appends.opens_cases (ha : Appends s s' o t node) {t' : Thread} {m : Node}
    (h : (s'.pc t').opens = some m) :
    (s.pc t').opens = some m ∨ t' = t ∧ m = node ∧ s.chain o = [] := by
  by_cases ht : t' = t
  · subst ht
    exact .inr ⟨rfl, (ha.opens m).mp h⟩
  · exact .inl (ha.other t' ht ▸ h)

omit [DecidableEq Thread] in
theorem Appends.linked (ha : Appends s s' o t node) (hs : Shape s o) :
    (s'.chain o).IsChain s'.Linked := by
  rw [ha.chain, List.isChain_append]
  refine ⟨hs.linked.imp fun x y hxy => ?_, List.isChain_singleton node, ?_⟩
  · rcases hxy with hxy | ⟨t', ht'⟩
    · exact .inl (ha.next ▸ hxy)
    · have ht : t' ≠ t := by
        rintro rfl
        rw [ha.quiet.1] at ht'
        cases ht'
      exact .inr ⟨t', by rwa [ha.other t' ht]⟩
  · intro x hx y hy
    obtain rfl : node = y := by simpa using hy
    exact .inr ⟨t, (ha.link x node).mpr ⟨rfl, hx⟩⟩

theorem Appends.link_infix (ha : Appends s s' o t node) (hs : Shape s o) {t' : Thread}
    {x y : Node} (h : (s'.pc t').link = some (x, y)) :
    s'.next x = none ∧ [x, y] <:+: s'.chain o := by
  rw [ha.next, ha.chain]
  rcases ha.link_cases h with h | ⟨_, rfl, hlast⟩
  · exact ⟨(hs.link t' x y h).1, List.infix_append_of_infix_left (hs.link t' x y h).2⟩
  · refine ⟨hs.last x hlast, ?_⟩
    obtain ⟨l, hl⟩ := List.getLast?_eq_some_iff.mp hlast
    exact ⟨l, [], by rw [hl]; simp⟩

/-- The old tail is the only node that can be waiting for the new link. -/
theorem Appends.link_unique (ha : Appends s s' o t node) (hs : Shape s o) {t₁ t₂ : Thread}
    {x y y' : Node} (h₁ : (s'.pc t₁).link = some (x, y)) (h₂ : (s'.pc t₂).link = some (x, y')) :
    t₁ = t₂ := by
  rcases ha.link_cases h₁ with h₁ | ⟨e₁, _, hlast⟩ <;>
    rcases ha.link_cases h₂ with h₂ | ⟨e₂, _, hlast'⟩
  · exact hs.link_unique t₁ t₂ x y y' h₁ h₂
  · exact absurd hlast' (getLast?_ne_of_adjacent hs.nodup (hs.link t₁ x y h₁).2)
  · exact absurd hlast (getLast?_ne_of_adjacent hs.nodup (hs.link t₂ x y' h₂).2)
  · exact e₁.trans e₂.symm

omit [DecidableEq Thread] in
theorem Appends.head_free (ha : Appends s s' none t node) (hs : Shape s none) :
    s'.head = s'.queue.head? ∨ s'.head = none ∧ ∃ t' m, (s'.pc t').opens = some m := by
  rw [ha.head, ha.queue]
  rcases hs.head_free rfl with hh | ⟨hh, t', m, hm⟩
  · cases hqs : s.queue with
    | nil => exact .inr ⟨by rw [hh, hqs]; rfl, t, node, (ha.opens node).mpr ⟨rfl, hqs⟩⟩
    | cons z rest => exact .inl (by rw [hh, hqs]; rfl)
  · have ht : t' ≠ t := by
      rintro rfl
      rw [ha.quiet.2] at hm
      cases hm
    exact .inr ⟨hh, t', m, by rwa [ha.other t' ht]⟩

theorem Appends.opens_first (ha : Appends s s' o t node) (hs : Shape s o) {t' : Thread}
    {m : Node} (h : (s'.pc t').opens = some m) :
    o = none ∧ s'.head = none ∧ s'.queue.head? = some m := by
  rw [ha.head, ha.queue]
  rcases ha.opens_cases h with h | ⟨_, rfl, hnil⟩
  · obtain ⟨ho, hh, hf⟩ := hs.opens t' m h
    exact ⟨ho, hh, by rw [List.head?_append, hf]; rfl⟩
  · cases o with
    | some th => cases hnil
    | none =>
        rw [State.chain_none] at hnil
        refine ⟨rfl, ?_, by rw [hnil]; rfl⟩
        rcases hs.head_free rfl with hh | ⟨hh, _⟩
        · rw [hh, hnil]
          rfl
        · exact hh

omit [DecidableEq Thread] in
/-- Nobody publishes a head while the chain is empty. -/
theorem Shape.opens_ne_of_nil (hs : Shape s o) (hnil : s.chain o = []) (t' : Thread) (m : Node) :
    (s.pc t').opens ≠ some m := by
  intro h
  obtain ⟨rfl, _, hf⟩ := hs.opens t' m h
  rw [State.chain_none] at hnil
  rw [hnil] at hf
  cases hf

theorem Appends.opens_unique (ha : Appends s s' o t node) (hs : Shape s o) {t₁ t₂ : Thread}
    {x y : Node} (h₁ : (s'.pc t₁).opens = some x) (h₂ : (s'.pc t₂).opens = some y) : t₁ = t₂ := by
  rcases ha.opens_cases h₁ with h₁ | ⟨e₁, _, hnil⟩ <;>
    rcases ha.opens_cases h₂ with h₂ | ⟨e₂, _, hnil'⟩
  · exact hs.opens_unique t₁ t₂ x y h₁ h₂
  · exact absurd h₁ (hs.opens_ne_of_nil hnil' t₁ x)
  · exact absurd h₂ (hs.opens_ne_of_nil hnil t₂ y)
  · exact e₁.trans e₂.symm

end Appends

/-- The exchange of `m_tail` appends the node to the chain. -/
theorem Shape.swapTail {node : Node} (hs : Shape s o) (hp : s.pc t = .swapTail node) :
    Shape { s.goto t (match s.tail with
              | some oldTail => .checkOldTail node oldTail
              | none => .checkHead node) with
        tail := some node
        enqueueOrder := s.enqueueOrder ++ [node] } o := by
  set q := (match s.tail with
    | some oldTail => Pc.checkOldTail node oldTail
    | none => Pc.checkHead node) with hq
  set s' : State Thread Node := { s.goto t q with
    tail := some node, enqueueOrder := s.enqueueOrder ++ [node] } with hs'
  have hown : (s.pc t).owns = some node := by rw [hp]; rfl
  have hnode : node ∉ s.chain o := hs.owns t node hown
  have hnext : s.next node = none := by simpa only [hp, Pc.Fits] using hs.fits t
  have hself : s'.pc t = q := Function.update_self ..
  have hqheld : q.held = none := by rw [hq]; cases s.tail <;> rfl
  have hqowns : q.owns = none := by rw [hq]; cases s.tail <;> rfl
  have hheld : ∀ t', (s'.pc t').held = (s.pc t').held :=
    update_same Pc.held (by rw [hp, hqheld]; rfl) rfl
  have howns : ∀ t' m, (s'.pc t').owns = some m → t' ≠ t ∧ (s.pc t').owns = some m :=
    fun t' m h => other_of_none Pc.owns hqowns rfl h
  have ha : Appends s s' o t node :=
    { next := rfl
      head := rfl
      queue := hs.queue_concat rfl rfl
      other := fun t' h => Function.update_of_ne h _ _
      link := fun x y => by
        rw [hself, hq, ← hs.tail]
        cases s.tail <;> simp [Pc.link, and_comm, eq_comm]
      opens := fun m => by
        rw [hself, hq, ← List.getLast?_eq_none_iff, ← hs.tail]
        cases s.tail <;> simp [Pc.opens, eq_comm]
      quiet := by rw [hp]; exact ⟨rfl, rfl⟩ }
  refine
    { held := by simpa only [hheld] using hs.held
      order := by
        change s.enqueueOrder ++ [node] = s.dequeueOrder ++ _
        rw [ha.queue, ← List.append_assoc, ← hs.order]
      nodup := by
        rw [ha.chain]
        exact hs.nodup.append (List.nodup_singleton node) (by simpa using hnode)
      tail := by rw [ha.chain, List.getLast?_concat]
      last := ?_
      linked := ha.linked hs
      link := fun _ _ _ => ha.link_infix hs
      link_unique := fun _ _ _ _ _ => ha.link_unique hs
      head_held := hs.head_held
      head_free := ?_
      opens := fun _ _ => ha.opens_first hs
      opens_unique := fun _ _ _ _ => ha.opens_unique hs
      owns := ?_
      owns_unique := fun t₁ t₂ m h₁ h₂ =>
        hs.owns_unique t₁ t₂ m (howns t₁ m h₁).2 (howns t₂ m h₂).2
      listed := ?_
      owns_listed := fun t' m h => hs.owns_listed t' m (howns t' m h).2
      fits := ?_ }
  · intro x hx
    rw [ha.chain, List.getLast?_concat, Option.some.injEq] at hx
    exact hx ▸ hnext
  · rintro rfl
    exact ha.head_free hs
  · intro t' m h
    obtain ⟨ht, hm⟩ := howns t' m h
    rw [ha.chain, List.mem_append, List.mem_singleton]
    rintro (hc | rfl)
    · exact hs.owns t' m hm hc
    · exact ht (hs.owns_unique t' t m hm hown)
  · intro m hm
    rw [ha.chain, List.mem_append, List.mem_singleton] at hm
    rcases hm with hm | rfl
    · exact hs.listed m hm
    · exact hs.owns_listed t m hown
  · exact fits_of_update rfl (by rw [hq]; cases s.tail <;> trivial) fun t' _ => hs.fits t'

theorem Shape.linkOldTail [DecidableEq Node] {node oldTail : Node} (hs : Shape s o)
    (hp : s.pc t = .linkOldTail node oldTail) :
    Shape { s.goto t .countUp with
      next := Function.update s.next oldTail (some node) } o := by
  set s' : State Thread Node := { s.goto t .countUp with
    next := Function.update s.next oldTail (some node) } with hs'
  have hpc : s'.pc = Function.update s.pc t .countUp := rfl
  have hmine : (s.pc t).link = some (oldTail, node) := by rw [hp]; rfl
  obtain ⟨hnone, hpair⟩ := hs.link t oldTail node hmine
  have hne : ∀ x, x ≠ oldTail → s'.next x = s.next x := fun x hx => Function.update_of_ne hx _ _
  have hheld := update_same Pc.held (s := s) (by rw [hp]; rfl) hpc
  have hopens := update_same Pc.opens (s := s) (by rw [hp]; rfl) hpc
  have howns := update_same Pc.owns (s := s) (by rw [hp]; rfl) hpc
  have hlink : ∀ t' x y, (s'.pc t').link = some (x, y) →
      x ≠ oldTail ∧ (s.pc t').link = some (x, y) := by
    intro t' x y h
    obtain ⟨ht, hl⟩ := other_of_none Pc.link rfl hpc h
    refine ⟨?_, hl⟩
    rintro rfl
    exact ht (hs.link_unique t' t x y node hl hmine)
  refine
    { held := fun t' m => by rw [hheld t']; exact hs.held t' m
      order := hs.order
      nodup := hs.nodup
      tail := hs.tail
      last := ?_
      linked := ?_
      link := ?_
      link_unique := fun t₁ t₂ x y y' h₁ h₂ =>
        hs.link_unique t₁ t₂ x y y' (hlink t₁ x y h₁).2 (hlink t₂ x y' h₂).2
      head_held := hs.head_held
      head_free := fun ho => (hs.head_free ho).imp_right
        fun ⟨hh, t', m, hm⟩ => ⟨hh, t', m, (hopens t').trans hm⟩
      opens := fun t' m hm => hs.opens t' m ((hopens t').symm.trans hm)
      opens_unique := by simpa only [hopens] using hs.opens_unique
      owns := fun t' m hm => hs.owns t' m ((howns t').symm.trans hm)
      owns_unique := by simpa only [howns] using hs.owns_unique
      listed := hs.listed
      owns_listed := fun t' m hm => hs.owns_listed t' m ((howns t').symm.trans hm)
      fits := ?_ }
  · intro x hx
    rw [hne x (fun h => getLast?_ne_of_adjacent hs.nodup hpair (h ▸ hx))]
    exact hs.last x hx
  · refine hs.linked.imp fun x y hxy => ?_
    rcases hxy with hxy | ⟨t', ht'⟩
    · refine .inl ((hne x ?_).trans hxy)
      rintro rfl
      rw [hnone] at hxy
      cases hxy
    · by_cases ht : t' = t
      · subst t'
        rw [hmine, Option.some.injEq, Prod.mk.injEq] at ht'
        obtain ⟨rfl, rfl⟩ := ht'
        exact .inl (Function.update_self ..)
      · exact .inr ⟨t', by rwa [hpc, Function.update_of_ne ht]⟩
  · intro t' x y h
    obtain ⟨hx, hl⟩ := hlink t' x y h
    exact ⟨(hne x hx).trans (hs.link t' x y hl).1, (hs.link t' x y hl).2⟩
  · refine fits_of_update hpc trivial fun t' _ => (hs.fits t').congr fun m hm => hne m ?_
    rintro rfl
    rcases Pc.watches_cases hm (hs.fits t') with ho | ⟨_, hw⟩
    · exact hs.owns t' m ho (hpair.mem (by simp))
    · exact hw hnone

theorem Shape.swapHead {node : Node} (hs : Shape s o) (hp : s.pc t = .swapHead node) :
    Shape { s.goto t .countUp with head := some node } o := by
  set s' : State Thread Node := { s.goto t .countUp with head := some node } with hs'
  have hpc : s'.pc = Function.update s.pc t .countUp := rfl
  have hmine : (s.pc t).opens = some node := by rw [hp]; rfl
  obtain ⟨rfl, _, hfirst⟩ := hs.opens t node hmine
  have hheld := update_same Pc.held (s := s) (by rw [hp]; rfl) hpc
  have hlink := update_same Pc.link (s := s) (by rw [hp]; rfl) hpc
  have howns := update_same Pc.owns (s := s) (by rw [hp]; rfl) hpc
  have hopens : ∀ t' m, (s'.pc t').opens ≠ some m := by
    intro t' m h
    obtain ⟨ht, ho⟩ := other_of_none Pc.opens rfl hpc h
    exact ht (hs.opens_unique t' t m node ho hmine)
  refine
    { held := fun t' m => by rw [hheld t']; exact hs.held t' m
      order := hs.order
      nodup := hs.nodup
      tail := hs.tail
      last := hs.last
      linked := hs.linked.imp fun x y hxy =>
        hxy.imp_right fun ⟨t', ht'⟩ => ⟨t', (hlink t').trans ht'⟩
      link := fun t' x y h => hs.link t' x y ((hlink t').symm.trans h)
      link_unique := by simpa only [hlink] using hs.link_unique
      head_held := fun ho => absurd rfl ho
      head_free := fun _ => .inl hfirst.symm
      opens := fun t' m hm => absurd hm (hopens t' m)
      opens_unique := fun t₁ _ m _ hm => absurd hm (hopens t₁ m)
      owns := fun t' m hm => hs.owns t' m ((howns t').symm.trans hm)
      owns_unique := by simpa only [howns] using hs.owns_unique
      listed := hs.listed
      owns_listed := fun t' m hm => hs.owns_listed t' m ((howns t').symm.trans hm)
      fits := fits_of_update hpc trivial fun t' _ => hs.fits t' }

theorem Shape.casHead (hs : Shape s o) (hp : s.pc t = .casHead h) (hh : s.head = some h) :
    o = none ∧ Shape { s.goto t (.checkTaken h) with
      head := none
      dequeueOrder := s.dequeueOrder ++ [h] } (some (t, h)) := by
  obtain ⟨rfl, ⟨rest, hrest⟩, hnoopen⟩ := hs.queue_of_head hh
  refine ⟨rfl, ?_⟩
  set s' : State Thread Node := { s.goto t (.checkTaken h) with
    head := none, dequeueOrder := s.dequeueOrder ++ [h] } with hs'
  have hpc : s'.pc = Function.update s.pc t (.checkTaken h) := rfl
  have hqueue : s'.queue = rest :=
    (State.queue_tail rfl rfl : s'.queue = s.queue.tail).trans (by rw [hrest, List.tail_cons])
  have hchain : s'.chain (some (t, h)) = s.chain none := by
    rw [State.chain_some, hqueue, State.chain_none, hrest]
  have hlink := update_same Pc.link (s := s) (by rw [hp]; rfl) hpc
  have howns := update_same Pc.owns (s := s) (by rw [hp]; rfl) hpc
  have hopens : ∀ t' m, (s'.pc t').opens ≠ some m := fun t' m hm =>
    hnoopen t' m (other_of_none Pc.opens rfl hpc hm).2
  refine
    { held := ?_
      order := ?_
      nodup := by rw [hchain]; exact hs.nodup
      tail := by rw [hchain]; exact hs.tail
      last := by rw [hchain]; exact hs.last
      linked := by
        rw [hchain]
        exact hs.linked.imp fun x y hxy =>
          hxy.imp_right fun ⟨t', ht'⟩ => ⟨t', (hlink t').trans ht'⟩
      link := fun t' x y hl => by rw [hchain]; exact hs.link t' x y ((hlink t').symm.trans hl)
      link_unique := by simpa only [hlink] using hs.link_unique
      head_held := fun _ => rfl
      head_free := fun ho => by cases ho
      opens := fun t' m hm => absurd hm (hopens t' m)
      opens_unique := fun t₁ _ m _ hm => absurd hm (hopens t₁ m)
      owns := fun t' m hm => by rw [hchain]; exact hs.owns t' m ((howns t').symm.trans hm)
      owns_unique := by simpa only [howns] using hs.owns_unique
      listed := fun m hm => hs.listed m (by rwa [hchain] at hm)
      owns_listed := fun t' m hm => hs.owns_listed t' m ((howns t').symm.trans hm)
      fits := ?_ }
  · intro t' m
    by_cases ht : t' = t
    · subst t'
      simp [hpc, Pc.held]
    · rw [hpc, Function.update_of_ne ht, hs.held t' m]
      simp [Ne.symm ht]
  · change s.enqueueOrder = s.dequeueOrder ++ [h] ++ _
    rw [hs.order, hqueue, hrest, List.append_assoc, List.singleton_append]
  · exact fits_of_update hpc trivial fun t' _ => hs.fits t'

/-- The thread that took the first node lets the rest of the chain go. -/
theorem Shape.release (hs : Shape s (some (t, h))) (hpc : s'.pc = Function.update s.pc t
    (.clearOldHead h)) (hnext : s'.next = s.next) (henq : s'.enqueueOrder = s.enqueueOrder)
    (hdeq : s'.dequeueOrder = s.dequeueOrder) (hlisted : s'.listed = s.listed)
    (hhead : s'.head = s.queue.head?) (htail : s'.tail = s.queue.getLast?)
    (hfree : ∀ t' z, (s.pc t').link ≠ some (h, z))
    (hlast : ∀ x, s.queue.getLast? = some x → s.next x = none) : Shape s' none := by
  have hh : h ∉ s.queue := (List.nodup_cons.mp hs.nodup).1
  have hqueue : s'.queue = s.queue := by rw [State.queue, henq, hdeq, State.queue]
  have hchain : s'.chain none = s.queue := hqueue
  have hmine : (s.pc t).held = some h := (hs.held t h).mpr rfl
  have hlinks : ∀ t' x z, (s.pc t').link = some (x, z) → t' ≠ t := by
    rintro t' x z hl rfl
    cases hp : s.pc t' <;> simp_all [Pc.held, Pc.link]
  have hopens : ∀ t' m, (s'.pc t').opens ≠ some m := by
    intro t' m hm
    cases (hs.opens t' m (other_of_none Pc.opens rfl hpc hm).2).1
  have howner : ∀ t' m, (s'.pc t').owns = some m →
      (t' = t ∧ m = h) ∨ (t' ≠ t ∧ (s.pc t').owns = some m) :=
    fun t' m hm => self_or_other Pc.owns rfl hpc hm
  refine
    { held := ?_
      order := by rw [henq, hdeq, hqueue]; exact hs.order
      nodup := hchain ▸ (List.nodup_cons.mp hs.nodup).2
      tail := by rw [hchain, htail]
      last := by rw [hchain, hnext]; exact hlast
      linked := ?_
      link := ?_
      link_unique := fun t₁ t₂ x z z' h₁ h₂ => hs.link_unique t₁ t₂ x z z'
        (other_of_none Pc.link rfl hpc h₁).2 (other_of_none Pc.link rfl hpc h₂).2
      head_held := fun ho => absurd rfl ho
      head_free := fun _ => .inl (by rw [hhead, hqueue])
      opens := fun t' m hm => absurd hm (hopens t' m)
      opens_unique := fun t₁ _ m _ hm => absurd hm (hopens t₁ m)
      owns := ?_
      owns_unique := ?_
      listed := fun m hm => by
        rw [hchain] at hm
        rw [hlisted]
        exact hs.listed m (List.mem_cons_of_mem h hm)
      owns_listed := ?_
      fits := ?_ }
  · intro t' m
    refine ⟨fun hm => ?_, fun hm => by cases hm⟩
    obtain ⟨ht, hold⟩ := other_of_none Pc.held rfl hpc hm
    have he := (hs.held t' m).mp hold
    exact absurd (Prod.mk.inj (Option.some.inj he)).1.symm ht
  · have hl : s.queue.IsChain s.Linked := hs.linked.tail
    rw [hchain]
    refine hl.imp fun x z hxz => ?_
    rcases hxz with hxz | ⟨t', ht'⟩
    · exact .inl (by rw [hnext, hxz])
    · exact .inr ⟨t', by rwa [hpc, Function.update_of_ne (hlinks t' x z ht')]⟩
  · intro t' x z hl
    have hold := (other_of_none Pc.link rfl hpc hl).2
    obtain ⟨hx, hi⟩ := hs.link t' x z hold
    rw [hnext, hchain]
    refine ⟨hx, adjacent_tail_of_ne hi ?_⟩
    rintro rfl
    exact hfree t' z hold
  · intro t' m hm
    rw [hchain]
    rcases howner t' m hm with ⟨_, rfl⟩ | ⟨_, hm⟩
    · exact hh
    · exact fun hq => hs.owns t' m hm (List.mem_cons_of_mem h hq)
  · intro t₁ t₂ m h₁ h₂
    rcases howner t₁ m h₁ with ⟨e₁, m₁⟩ | ⟨_, o₁⟩ <;>
      rcases howner t₂ m h₂ with ⟨e₂, m₂⟩ | ⟨_, o₂⟩
    · exact e₁.trans e₂.symm
    · exact absurd (m₁ ▸ List.mem_cons_self) (hs.owns t₂ m o₂)
    · exact absurd (m₂ ▸ List.mem_cons_self) (hs.owns t₁ m o₁)
    · exact hs.owns_unique t₁ t₂ m o₁ o₂
  · intro t' m hm
    rw [hlisted]
    rcases howner t' m hm with ⟨_, rfl⟩ | ⟨_, hm⟩
    · exact hs.listed m List.mem_cons_self
    · exact hs.owns_listed t' m hm
  · exact fits_of_update hpc trivial fun t' _ => by rw [hnext]; exact hs.fits t'

/-- Storing the successor as the new head hands the list over. -/
theorem Shape.handOver {y : Node} (hs : Shape s o) (hheld : (s.pc t).held = some h)
    (hy : s.next h = some y) :
    Shape { s.goto t (.clearOldHead h) with head := some y } none := by
  obtain rfl : o = some (t, h) := (hs.held t h).mp hheld
  obtain ⟨rest, hrest⟩ := hs.queue_of_next hy
  have hlast : (h :: s.queue).getLast? = s.queue.getLast? := by
    rw [hrest, List.getLast?_cons_cons]
  refine hs.release rfl rfl rfl rfl rfl (by rw [hrest]; rfl) (hs.tail.trans hlast) ?_
    (fun x hx => hs.last x (hlast.trans hx))
  intro t' z hl
  rw [(hs.link t' h z hl).1] at hy
  cases hy

/-- The store of the loaded successor, which is null while a link is missing. -/
theorem Shape.storeHead {newHead : Option Node} (hs : Shape s o)
    (hp : s.pc t = .storeHead h newHead) :
    ∃ o', Shape { s.goto t (match newHead with
            | some _ => .clearOldHead h
            | none => .checkLast h) with head := newHead } o' := by
  have hheld : (s.pc t).held = some h := by rw [hp]; rfl
  cases newHead with
  | some y =>
      have hy : s.next h = some y := by simpa only [hp, Pc.Fits] using hs.fits t
      exact ⟨none, hs.handOver hheld hy⟩
  | none =>
      have hnone : s.head = none := hs.head_held (by rw [(hs.held t h).mp hheld]; simp)
      exact ⟨o, hs.frame ⟨hnone.symm, rfl, rfl, rfl, rfl⟩ rfl (by rw [hp]; rfl) (by rw [hp]; rfl)
        (by rw [hp]; rfl) (fun _ hn => by cases hn) (fun _ hn _ => hn) trivial⟩

theorem Shape.casTail (hs : Shape s o) (hp : s.pc t = .casTail h) (htail : s.tail = some h) :
    Shape { s.goto t (.clearOldHead h) with tail := none } none := by
  obtain rfl : o = some (t, h) := (hs.held t h).mp (by rw [hp]; rfl)
  have hqueue : s.queue = [] := by
    cases hq : s.queue with
    | nil => rfl
    | cons y rest =>
        have hlast := hs.tail.symm.trans htail
        rw [State.chain_some, hq, List.getLast?_cons_cons, ← hq] at hlast
        exact absurd (List.mem_of_getLast? hlast) (List.nodup_cons.mp hs.nodup).1
  refine hs.release rfl rfl rfl rfl rfl ?_ (by rw [hqueue]; rfl) ?_ ?_
  · change s.head = s.queue.head?
    rw [hs.head_held (by simp), hqueue]
    rfl
  · intro t' z hl
    have hi := (hs.link t' h z hl).2.length_le
    simp [hqueue] at hi
  · intro x hx
    rw [hqueue] at hx
    cases hx

theorem Shape.callEnqueue [DecidableEq Node] {node : Node} (hs : Shape s o)
    (hq : (s.pc t).isQuiet = true) (hn : s.listed node = false) :
    Shape { s.goto t (.clearNext node) with listed := Function.update s.listed node true } o := by
  set s' : State Thread Node := { s.goto t (.clearNext node) with
    listed := Function.update s.listed node true } with hs'
  have hpc : s'.pc = Function.update s.pc t (.clearNext node) := rfl
  have hquiet : (s.pc t).held = none ∧ (s.pc t).link = none ∧ (s.pc t).opens = none := by
    cases hp : s.pc t <;> simp_all [Pc.isQuiet, Pc.held, Pc.link, Pc.opens]
  have hheld := update_same Pc.held (s := s) (by rw [hquiet.1]; rfl) hpc
  have hlink := update_same Pc.link (s := s) (by rw [hquiet.2.1]; rfl) hpc
  have hopens := update_same Pc.opens (s := s) (by rw [hquiet.2.2]; rfl) hpc
  have hne : ∀ m, s.listed m = true → m ≠ node := by
    rintro m hm rfl
    rw [hn] at hm
    cases hm
  have hkeep : ∀ m, s.listed m = true → s'.listed m = true := fun m hm => by
    change Function.update s.listed node true m = true
    rw [Function.update_of_ne (hne m hm), hm]
  have howner : ∀ t' m, (s'.pc t').owns = some m →
      (t' = t ∧ m = node) ∨ (t' ≠ t ∧ (s.pc t').owns = some m) :=
    fun t' m hm => self_or_other Pc.owns rfl hpc hm
  refine
    { held := fun t' m => by rw [hheld t']; exact hs.held t' m
      order := hs.order
      nodup := hs.nodup
      tail := hs.tail
      last := hs.last
      linked := hs.linked.imp fun x y hxy =>
        hxy.imp_right fun ⟨t', ht'⟩ => ⟨t', (hlink t').trans ht'⟩
      link := fun t' x y hl => hs.link t' x y ((hlink t').symm.trans hl)
      link_unique := by simpa only [hlink] using hs.link_unique
      head_held := hs.head_held
      head_free := fun ho => (hs.head_free ho).imp_right
        fun ⟨hh, t', m, hm⟩ => ⟨hh, t', m, (hopens t').trans hm⟩
      opens := fun t' m hm => hs.opens t' m ((hopens t').symm.trans hm)
      opens_unique := by simpa only [hopens] using hs.opens_unique
      owns := ?_
      owns_unique := ?_
      listed := fun m hm => hkeep m (hs.listed m hm)
      owns_listed := ?_
      fits := ?_ }
  · intro t' m hm hc
    rcases howner t' m hm with ⟨_, rfl⟩ | ⟨_, hm⟩
    · exact hne m (hs.listed m hc) rfl
    · exact hs.owns t' m hm hc
  · intro t₁ t₂ m h₁ h₂
    rcases howner t₁ m h₁ with ⟨e₁, m₁⟩ | ⟨_, o₁⟩ <;>
      rcases howner t₂ m h₂ with ⟨e₂, m₂⟩ | ⟨_, o₂⟩
    · exact e₁.trans e₂.symm
    · exact absurd m₁ (hne m (hs.owns_listed t₂ m o₂))
    · exact absurd m₂ (hne m (hs.owns_listed t₁ m o₁))
    · exact hs.owns_unique t₁ t₂ m o₁ o₂
  · intro t' m hm
    rcases howner t' m hm with ⟨_, rfl⟩ | ⟨_, hm⟩
    · exact Function.update_self ..
    · exact hkeep m (hs.owns_listed t' m hm)
  · exact fits_of_update hpc trivial fun t' _ => hs.fits t'

end Steps

end LevelzAsync.ConcurrentFifoList
