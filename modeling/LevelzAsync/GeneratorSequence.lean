import LevelzAsync.GeneratorStatuses

/-!
# A generator delivers its sequence

`produced` counts the writes of `m_value` and `received` the results that the
consumer has got. They agree whenever no await is under way and the body has not
come to its end; an await that can read its result is one behind.
-/

namespace LevelzAsync.Generator

open CoroutineStatus TaskAwait

variable {V E : Type*} {values : List V} {last : Result V E} {s s' : State V E}

theorem delivered_of_le {i : ℕ} (h : values.length ≤ i) : delivered values last i = last := by
  unfold delivered
  rw [List.getElem?_eq_none h]

/-- An await under way finds a result that it has not given yet. -/
def State.owes (s : State V E) : Bool := s.pending && gives s.await.consumer s.await.task

structure Inv (values : List V) (last : Result V E) (s : State V E) : Prop where
  steady : Steady s.await
  ending : s.last = last
  failed : s.failed = false
  pending : s.await.consumer ≠ .body → s.pending = true
  fresh : s.await.task = .notStarted → s.produced = 0
  script : isOver s.await.task = false →
    s.script = values.drop s.produced ∧ s.produced ≤ values.length
  ended : isOver s.await.task = true → s.produced = values.length + 1
  value : s.value = if s.produced = 0 then none else some (delivered values last (s.produced - 1))
  received : ∀ i r, s.received[i]? = some r → r = delivered values last i
  balance : s.produced = s.received.length + s.owes.toNat ∨
    isOver s.await.task = true ∧ s.produced ≤ s.received.length

theorem Inv.go {t : TaskAwait.State} (h : Inv values last s) (hsteady : Steady t)
    (hconsumer : t.consumer ≠ .body → s.pending = true)
    (hfresh : t.task = .notStarted → s.await.task = .notStarted)
    (hover : isOver t.task = isOver s.await.task)
    (hgives : gives t.consumer t.task = gives s.await.consumer s.await.task ∨
      gives t.consumer t.task = true ∧ t.task = .finished) : Inv values last (s.go t) where
  steady := hsteady
  ending := h.ending
  failed := h.failed
  pending := hconsumer
  fresh hf := h.fresh (hfresh hf)
  script ho := h.script (hover ▸ ho)
  ended ho := h.ended (hover ▸ ho)
  value := h.value
  received := h.received
  balance := by
    have hbalance := h.balance
    unfold State.owes at hbalance ⊢
    simp only [State.go]
    rw [hover]
    rcases hgives with hg | ⟨hg, ht⟩
    · rw [hg]
      exact hbalance
    · have ho : isOver s.await.task = true := by
        rw [← hover, ht]
        rfl
      rw [hg]
      cases hw : gives s.await.consumer s.await.task with
      | true =>
          rw [hw] at hbalance
          exact hbalance
      | false =>
          rw [hw, Bool.and_false, Bool.toNat_false] at hbalance
          refine .inr ⟨ho, ?_⟩
          rcases hbalance with hb | ⟨_, hb⟩ <;> omega

theorem Inv.advance {t : TaskAwait.State} (h : Inv values last s) (hsteady : Steady t)
    (ha : Advances s.await t) : Inv values last (s.go t) :=
  h.go hsteady (fun _ => h.pending ha.awaits) ha.fresh ha.ended ha.result

theorem Inv.stay {t : TaskAwait.State} (h : Inv values last s) (hsteady : Steady t)
    (hconsumer : t.consumer = s.await.consumer) (htask : t.task = s.await.task) :
    Inv values last (s.go t) :=
  h.go hsteady (fun hc => h.pending (hconsumer ▸ hc)) (fun ht => htask ▸ ht) (by rw [htask])
    (.inl (by rw [hconsumer, htask]))

section SetTaskStatus

variable {t : TaskAwait.State} {isFinal : Bool} {status : CoroutineStatus}
  {next : CoroutineStatus → TaskAwait.State → TaskAwait.State}

theorem setTaskStatus_consumer (h : ∀ prev t, (next prev t).consumer = t.consumer) :
    (t.setTaskStatus isFinal status next).consumer = t.consumer := by
  unfold State.setTaskStatus
  split
  · exact h _ _
  · rfl

theorem setTaskStatus_task (h : ∀ prev t, (next prev t).task = t.task) :
    (t.setTaskStatus isFinal status next).task = t.task := by
  unfold State.setTaskStatus
  split
  · exact h _ _
  · rfl

end SetTaskStatus

theorem Inv.await {t : TaskAwait.State} (h : Inv values last s) (hpending : s.pending = false)
    (ht : TaskAwait.step s.await .await = some t) :
    Inv values last
      { s.go t with pending := true, failed := !isAwaitable s.await.taskStatus } := by
  have hsteady := h.steady.step rfl ht nofun
  have hbody : s.await.consumer = .body := by
    by_contra hne
    have := h.pending hne
    rw [hpending] at this
    cases this
  have hcases := h.steady.taskStatus_cases (by rw [hbody]; nofun) (by rw [hbody]; rfl)
  obtain ⟨-, ht⟩ := Option.ite_none_left_eq_some.mp ht
  obtain ⟨-, ht⟩ := Option.ite_none_right_eq_some.mp ht
  have he := Option.some.inj ht
  have hfree : ¬ s.await.cancelled = true := by rw [h.steady.cancelled]; nofun
  rw [if_neg hfree] at he
  subst he
  refine ⟨hsteady, h.ending, ?_, fun _ => rfl, h.fresh, h.script, h.ended, h.value, h.received, ?_⟩
  · rcases hcases with ⟨_, hs⟩ | ⟨_, hs⟩ | ⟨_, hs⟩ <;> simp [isAwaitable, hs]
  · have hbalance := h.balance
    unfold State.owes at hbalance
    rw [hpending] at hbalance
    exact hbalance

theorem Inv.read (h : Inv values last s) (hpending : s.pending = true)
    (hbody : s.await.consumer = .body) : hasResult s.await.taskStatus = true ∧
      s.value = some (delivered values last s.received.length) ∧
      Inv values last { s with
        pending := false
        received := s.received ++ [delivered values last s.received.length] } := by
  have hcases := h.steady.taskStatus_cases (by rw [hbody]; nofun) (by rw [hbody]; rfl)
  have hbalance := h.balance
  unfold State.owes at hbalance
  rw [hpending, hbody] at hbalance
  simp only [gives, Bool.true_and, Bool.toNat_true] at hbalance
  have hpos : s.produced ≠ 0 := by
    rcases hbalance with hb | ⟨hb, _⟩
    · omega
    · have := h.ended hb
      omega
  refine ⟨?_, ?_, h.steady, h.ending, h.failed, fun hc => absurd hbody hc, h.fresh, h.script,
    h.ended, h.value, fun i r hi => ?_, ?_⟩
  · rcases hcases with ⟨ht, _⟩ | ⟨_, hs⟩ | ⟨_, hs⟩
    · exact absurd (h.fresh ht) hpos
    · simp [hasResult, hs]
    · simp [hasResult, hs]
  · rw [h.value, if_neg hpos]
    rcases hbalance with hb | ⟨hb, hle⟩
    · rw [hb, Nat.add_sub_cancel]
    · have hover := h.ended hb
      rw [delivered_of_le (by omega), delivered_of_le (by omega)]
  · rw [List.getElem?_append] at hi
    split at hi
    · exact h.received i r hi
    · have hlen : i - s.received.length = 0 := by
        by_contra hne
        rw [List.getElem?_eq_none (by simp; omega)] at hi
        cases hi
      rw [hlen] at hi
      have : i = s.received.length := by omega
      subst this
      exact (Option.some.inj hi).symm
  · simp only [State.owes, Bool.false_and, Bool.toNat_false, List.length_append, List.length_cons,
      List.length_nil]
    rcases hbalance with hb | ⟨hb, hle⟩
    · exact .inl (by omega)
    · exact .inr ⟨hb, by omega⟩

/-- The body writes the next value of the script, or its result. -/
theorem Inv.write {t : TaskAwait.State} {script : List V} {r : Result V E}
    (h : Inv values last s) (hsteady : Steady t) (hbody : s.await.task = .body)
    (hconsumer : t.consumer = s.await.consumer) (hwritten : hasWritten t.task = true)
    (hr : r = delivered values last s.produced)
    (hscript : isOver t.task = false →
      script = values.drop (s.produced + 1) ∧ s.produced + 1 ≤ values.length)
    (hover : isOver t.task = true → s.produced = values.length) :
    Inv values last
      { s.go t with script := script, value := some r, produced := s.produced + 1 } := by
  have hsuspended := h.steady.consumer_suspended (.inl (by rw [hbody]; rfl))
  have hpending : s.pending = true := h.pending (by rw [hsuspended]; nofun)
  have hbalance := h.balance
  unfold State.owes at hbalance
  rw [hsuspended, hbody] at hbalance
  simp only [gives, hasWritten, Bool.and_false, Bool.toNat_false] at hbalance
  refine ⟨hsteady, h.ending, h.failed, fun _ => hpending, fun ht => ?_, hscript, fun ho => ?_, ?_,
    h.received, ?_⟩
  · simp only [State.go] at ht
    rw [ht] at hwritten
    cases hwritten
  · have := hover ho
    simp only
    omega
  · rw [if_neg (Nat.succ_ne_zero _), hr]
    rfl
  · simp only [State.owes, State.go]
    rw [hconsumer, hsuspended, hpending]
    simp only [gives, hwritten, Bool.and_self, Bool.toNat_true]
    left
    rcases hbalance with hb | ⟨hb, _⟩
    · omega
    · cases hb

/-- The first value of the script is the next one that the generator owes. -/
theorem Inv.script_cons {v : V} {script : List V} (h : Inv values last s)
    (hbody : s.await.task = .body) (hscript : s.script = v :: script) :
    s.produced < values.length ∧ .value v = delivered values last s.produced ∧
      script = values.drop (s.produced + 1) := by
  obtain ⟨hdrop, -⟩ := h.script (by rw [hbody]; rfl)
  rw [hscript] at hdrop
  have hlt : s.produced < values.length := by
    by_contra hle
    rw [List.drop_eq_nil_of_le (by omega)] at hdrop
    cases hdrop
  rw [List.drop_eq_getElem_cons hlt] at hdrop
  obtain ⟨rfl, hrest⟩ := List.cons.inj hdrop
  refine ⟨hlt, ?_, hrest⟩
  simp [delivered, hlt]

/-- With an empty script all values were produced. -/
theorem Inv.script_nil (h : Inv values last s) (hbody : s.await.task = .body)
    (hscript : s.script = []) :
    s.produced = values.length ∧ s.last = delivered values last s.produced := by
  obtain ⟨hdrop, hle⟩ := h.script (by rw [hbody]; rfl)
  rw [hscript] at hdrop
  have hlength : values.length ≤ s.produced := List.drop_eq_nil_iff.mp hdrop.symm
  refine ⟨by omega, ?_⟩
  rw [delivered_of_le hlength, h.ending]

/-- No step but that of an await at an allowance of 0 finds the task done. -/
theorem isDone_of_awaitsDone {b₁ b₂ : Bool} (hg : s.awaitsDone (.consumer b₁ b₂) = false)
    (hc : s.await.consumer = .ready) (hb : b₂ = false) : s.await.taskStatus.isDone = false := by
  subst hb
  simpa [State.awaitsDone, hc] using hg

theorem Inv.step {a : Action} (h : Inv values last s) (hg : s.awaitsDone a = false)
    (ha : step s a = some s') : Inv values last s' := by
  obtain ⟨-, ha⟩ := Option.ite_none_left_eq_some.mp ha
  cases a with
  | await =>
      obtain ⟨hpending, ha⟩ := Option.ite_none_left_eq_some.mp ha
      obtain ⟨t, ht, rfl⟩ := Option.map_eq_some_iff.mp ha
      exact h.await (by simpa using hpending) ht
  | consumer b₁ b₂ =>
      obtain ⟨t, ht, rfl⟩ := Option.map_eq_some_iff.mp ha
      have hg := isDone_of_awaitsDone hg
      have hsteady := h.steady.step rfl ht
        fun _ he hc => hg hc (TaskAwait.Action.consumer.inj he).2
      obtain ⟨-, hc⟩ := Option.ite_none_left_eq_some.mp ht
      exact h.advance hsteady (h.steady.consumerStep hsteady.inv hc hg).2
  | read =>
      obtain ⟨⟨hpending, hbody⟩, ha⟩ := Option.ite_none_right_eq_some.mp ha
      obtain ⟨hresult, hvalue, hinv⟩ := h.read hpending hbody
      have he := Option.some.inj ha
      subst he
      split
      next hv =>
        obtain rfl := Option.some.inj (hvalue.symm.trans hv)
        exact hinv
      next hnot => exact (hnot _ hresult hvalue).elim
  | launch =>
      obtain ⟨t, ht, rfl⟩ := Option.map_eq_some_iff.mp ha
      have hsteady := h.steady.step rfl ht (by rintro _ ⟨⟩)
      obtain ⟨-, ht⟩ := Option.ite_none_left_eq_some.mp ht
      obtain ⟨hl, he⟩ := Option.ite_none_right_eq_some.mp ht
      have hc := h.steady.consumer_suspended (.inr hl)
      have hparked := h.steady.inv.launching hl
      have hpending : s.pending = true := h.pending (by rw [hc]; rintro ⟨⟩)
      cases he
      refine h.go hsteady (fun _ => hpending) ?_ ?_ (.inl ?_)
      · cases hp : s.await.task <;> simp_all [TaskPc.isParked]
      · cases hp : s.await.task <;> simp_all [TaskPc.isParked, isOver, TaskPc.hasReturned]
      · cases hp : s.await.task <;> simp_all [TaskPc.isParked, gives, hasWritten]
  | taskAwaits goesOn =>
      obtain ⟨t, ht, rfl⟩ := Option.map_eq_some_iff.mp ha
      have hsteady := h.steady.step (by cases goesOn <;> rfl) ht (by rintro _ ⟨⟩)
      obtain ⟨-, ht⟩ := Option.ite_none_left_eq_some.mp ht
      obtain ⟨-, he⟩ := Option.ite_none_right_eq_some.mp ht
      cases he
      exact h.stay hsteady (setTaskStatus_consumer fun _ _ => rfl)
        (setTaskStatus_task fun _ _ => rfl)
  | yield =>
      cases hscript : s.script with
      | nil =>
          simp only [hscript] at ha
          cases ha
      | cons v script =>
          simp only [hscript] at ha
          obtain ⟨t, ht, rfl⟩ := Option.map_eq_some_iff.mp ha
          have hsteady := h.steady.step rfl ht (by rintro _ ⟨⟩)
          obtain ⟨-, ht⟩ := Option.ite_none_left_eq_some.mp ht
          obtain ⟨⟨hbody, _⟩, he⟩ := Option.ite_none_right_eq_some.mp ht
          cases he
          obtain ⟨hlt, hv, hrest⟩ := h.script_cons hbody hscript
          exact h.write hsteady hbody rfl rfl hv (fun _ => ⟨hrest, hlt⟩) (by rintro ⟨⟩)
  | finish =>
      cases hscript : s.script with
      | cons v script =>
          simp only [hscript] at ha
          cases ha
      | nil =>
          simp only [hscript] at ha
          obtain ⟨t, ht, rfl⟩ := Option.map_eq_some_iff.mp ha
          have hsteady := h.steady.step rfl ht (by rintro _ ⟨⟩)
          obtain ⟨-, ht⟩ := Option.ite_none_left_eq_some.mp ht
          obtain ⟨⟨hbody, _⟩, he⟩ := Option.ite_none_right_eq_some.mp ht
          cases he
          obtain ⟨hproduced, hending⟩ := h.script_nil hbody hscript
          have hwrite : Inv values last
              { s.go _ with
                script := s.script, value := some s.last, produced := s.produced + 1 } :=
            h.write hsteady hbody rfl rfl hending (by rintro ⟨⟩) fun _ => hproduced
          exact hwrite
  | task b₁ b₂ b₃ =>
      obtain ⟨t, ht, rfl⟩ := Option.map_eq_some_iff.mp ha
      have hsteady := h.steady.step rfl ht (by rintro _ ⟨⟩)
      obtain ⟨-, hc⟩ := Option.ite_none_left_eq_some.mp ht
      exact h.advance hsteady (h.steady.taskStep hsteady.inv hc).2
  | complete =>
      obtain ⟨t, ht, rfl⟩ := Option.map_eq_some_iff.mp ha
      have hsteady := h.steady.step rfl ht (by rintro _ ⟨⟩)
      obtain ⟨-, ht⟩ := Option.ite_none_left_eq_some.mp ht
      obtain ⟨-, he⟩ := Option.ite_none_right_eq_some.mp ht
      cases he
      exact h.stay hsteady (setTaskStatus_consumer fun _ _ => rfl)
        (setTaskStatus_task fun _ _ => rfl)

theorem inv_initial : Inv values last (initial values last) where
  steady := steady_initial
  ending := rfl
  failed := rfl
  pending := fun h => absurd rfl h
  fresh _ := rfl
  script _ := ⟨rfl, Nat.zero_le _⟩
  ended := nofun
  value := rfl
  received := nofun
  balance := .inl rfl

theorem inv_of_reach
    (hs : (system values last).ReachWhile (fun s a => s.awaitsDone a = false) s) :
    Inv values last s := by
  refine hs.invariant (fun s h => ?_) fun s a s' hi hg ha => hi.step hg ha
  obtain rfl : s = initial values last := h
  exact inv_initial

section Progress

def State.rank (s : State V E) : ℕ :=
  Generator.rank s.await.consumer s.await.task s.await.taskStatus

/-- The await under way has given its result, or is one step nearer to it. -/
def Nearer (values : List V) (last : Result V E) (s s' : State V E) : Prop :=
  s'.received = s.received ++ [delivered values last s.received.length] ∨
    s'.pending = true ∧ s'.received = s.received ∧ s'.rank < s.rank

theorem Inv.sound (h : Inv values last s) :
    ¬ (s.failed = true ∨ s.await.assertFailed = true) := by
  rw [h.failed, h.steady.allowed.assertFailed]
  simp

end Progress

/-- An await from its begin until the body runs, and from the body's next write
until its result. -/
def awaits (write : Action) : List Action :=
  .await :: List.replicate 8 (.consumer true true) ++ [.launch, .task true true true, write] ++
    List.replicate 6 (.task true true true) ++ List.replicate 3 (.consumer true true) ++ [.read]

end LevelzAsync.Generator
