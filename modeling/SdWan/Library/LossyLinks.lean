import SdWan.Library.Transition

/-!
# Links that lose packets

Packets are offered to links. Every link transmits its packets in the order of the offers, loses
some of them and delivers the others in order. `history` relates what a run has offered and
transmitted on a link to what the link holds and what has arrived.
-/

@[ext]
structure LossyLinks (L P : Type*) where
  queue : L → List P := fun _ => []
  flight : L → List P := fun _ => []
  arrived : L → List P := fun _ => []

namespace LossyLinks

inductive Act (L P : Type*)
  | offer (f : L → List P)
  | transmit (l : L) (p : P) (isLost : Bool)
  | arrive (l : L) (n : ℕ)

variable {L P : Type*}

/-- The packets that were not lost. -/
def survivors (ts : List (P × Bool)) : List P := (ts.filter fun t => !t.2).map Prod.fst

theorem survivors_append (ts us : List (P × Bool)) :
    survivors (ts ++ us) = survivors ts ++ survivors us := by
  simp [survivors]

def offer (x : LossyLinks L P) (f : L → List P) : LossyLinks L P :=
  { x with queue := fun l => x.queue l ++ f l }

theorem length_survivors_add (ts : List (P × Bool)) :
    (survivors ts).length + ts.countP (·.2) = ts.length := by
  rw [survivors, List.length_map, ← List.countP_eq_length_filter, Nat.add_comm,
    List.length_eq_countP_add_countP (·.2)]
  simp only [Bool.not_eq_true, Bool.decide_eq_false]

/-- A packet was lost or it survived. -/
theorem count_survivors_add [DecidableEq P] (p : P) (ts : List (P × Bool)) :
    (survivors ts).count p + ts.count (p, true) = (ts.map Prod.fst).count p := by
  induction ts with
  | nil => rfl
  | cons t ts ih =>
    obtain ⟨q, isLost⟩ := t
    have htail : survivors ((q, isLost) :: ts) = survivors [(q, isLost)] ++ survivors ts :=
      survivors_append [_] ts
    rw [htail, List.count_append, List.map_cons, List.count_cons, List.count_cons, ← ih]
    have hhead : (survivors [(q, isLost)]).count p + (if (q, isLost) == (p, true) then 1 else 0) =
        if (q, isLost).1 == p then 1 else 0 := by
      cases isLost <;> simp [survivors, List.count_singleton]
    omega

variable [DecidableEq L]

/-- The link `l` takes `p` out of its queue and keeps `rest`. -/
def transmit (x : LossyLinks L P) (l : L) (p : P) (rest : List P) (isLost : Bool) :
    LossyLinks L P :=
  { x with
    queue := Function.update x.queue l rest
    flight := Function.update x.flight l (x.flight l ++ survivors [(p, isLost)]) }

def arrive (x : LossyLinks L P) (l : L) (n : ℕ) : LossyLinks L P :=
  { x with
    flight := Function.update x.flight l ((x.flight l).drop n)
    arrived := Function.update x.arrived l (x.arrived l ++ (x.flight l).take n) }

inductive Step : LossyLinks L P → Act L P → LossyLinks L P → Prop
  | offer (x : LossyLinks L P) (f : L → List P) : Step x (.offer f) (x.offer f)
  | transmit {x : LossyLinks L P} {l : L} {p : P} {rest : List P} (isLost : Bool) :
      x.queue l = p :: rest → Step x (.transmit l p isLost) (x.transmit l p rest isLost)
  | arrive (x : LossyLinks L P) (l : L) (n : ℕ) : Step x (.arrive l n) (x.arrive l n)

/-- A run begins with links that hold nothing. -/
abbrev Runs : List (Act L P) → LossyLinks L P → Prop := Transition.Reaches (Step {}) Step

/-! ## What a run has done on a link -/

def Act.offeredOn (l : L) : Act L P → List P
  | .offer f => f l
  | _ => []

def Act.transmittedOn (l : L) : Act L P → List (P × Bool)
  | .transmit l' p isLost => if l' = l then [(p, isLost)] else []
  | _ => []

def offered (l : L) (as : List (Act L P)) : List P := as.flatMap (Act.offeredOn l)

/-- The packets that a link has transmitted, with whether they were lost. -/
def transmitted (l : L) (as : List (Act L P)) : List (P × Bool) :=
  as.flatMap (Act.transmittedOn l)

omit [DecidableEq L] in
theorem offered_concat (l : L) (as : List (Act L P)) (a : Act L P) :
    offered l (as ++ [a]) = offered l as ++ a.offeredOn l := by
  simp [offered]

theorem transmitted_concat (l : L) (as : List (Act L P)) (a : Act L P) :
    transmitted l (as ++ [a]) = transmitted l as ++ a.transmittedOn l := by
  simp [transmitted]

/-- Nothing is reordered, duplicated or invented on the link `l`. -/
structure History (l : L) (as : List (Act L P)) (x : LossyLinks L P) : Prop where
  offered_eq : offered l as = (transmitted l as).map Prod.fst ++ x.queue l
  survivors_eq : survivors (transmitted l as) = x.arrived l ++ x.flight l

theorem History.step {l : L} {as : List (Act L P)} {a : Act L P} {x y : LossyLinks L P}
    (hx : History l as x) (h : Step x a y) : History l (as ++ [a]) y := by
  cases h with
  | offer f =>
    constructor
    · rw [offered_concat, transmitted_concat, hx.offered_eq]
      simp [Act.offeredOn, Act.transmittedOn, offer]
    · rw [transmitted_concat]
      simpa [Act.transmittedOn, offer] using hx.survivors_eq
  | @transmit l' p rest isLost hqueue =>
    by_cases hl : l' = l
    · subst hl
      constructor
      · rw [offered_concat, transmitted_concat, hx.offered_eq, hqueue]
        simp [Act.offeredOn, Act.transmittedOn, transmit]
      · rw [transmitted_concat, survivors_append, hx.survivors_eq]
        simp [Act.transmittedOn, transmit]
    · constructor
      · rw [offered_concat, transmitted_concat, hx.offered_eq]
        simp [Act.offeredOn, Act.transmittedOn, transmit, hl, Ne.symm hl]
      · rw [transmitted_concat, survivors_append, hx.survivors_eq]
        simp [Act.transmittedOn, transmit, survivors, hl, Ne.symm hl]
  | arrive l' n =>
    constructor
    · rw [offered_concat, transmitted_concat, hx.offered_eq]
      simp [Act.offeredOn, Act.transmittedOn, arrive]
    · rw [transmitted_concat]
      by_cases hl : l' = l
      · subst hl
        simpa [Act.transmittedOn, arrive] using hx.survivors_eq
      · simpa [Act.transmittedOn, arrive, Ne.symm hl] using hx.survivors_eq

theorem history {as : List (Act L P)} {x : LossyLinks L P} (h : Runs as x) (l : L) :
    History l as x := by
  apply h.invariant (I := fun as x => History l as x)
  · intro a x hfirst
    have hempty : History l [] ({} : LossyLinks L P) := ⟨rfl, rfl⟩
    exact hempty.step hfirst
  · intro as a x y _ hx hstep
    exact hx.step hstep

end LossyLinks
