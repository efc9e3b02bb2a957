import Mathlib.Data.List.Basic

/-!
# Programs by the calls they make

A program ends in a value or an error, or makes a call and goes on with whatever answer
comes back, an error included. A machine answers calls from its state and from what its
surroundings have to say, and the answer decides what becomes of the state. A run is given
the surroundings' say call by call; a run that is given too little is a program that was
stopped.

`Keeps` is what holds of a program under a contract, however it is answered: each call is
made as the contract demands, and the end is as promised. A machine whose steps the contract
accounts for passes all of it on to its runs, stopped ones too.
-/

namespace Indexterity.Library

inductive Program (Op : Type) (Ans : Op → Type) (ε α : Type) where
  | done (value : α)
  | raise (error : ε)
  | call (op : Op) (next : Except ε (Ans op) → Program Op Ans ε α)

namespace Program

variable {Op : Type} {Ans : Op → Type} {ε α β γ : Type}

def handle : Program Op Ans ε α → (ε → Program Op Ans ε β) → (α → Program Op Ans ε β) →
    Program Op Ans ε β
  | .done value, _, next => next value
  | .raise error, caught, _ => caught error
  | .call op answer, caught, next => .call op fun a => (answer a).handle caught next

instance : Monad (Program Op Ans ε) where
  pure := .done
  bind program next := program.handle .raise next

def ask (op : Op) : Program Op Ans ε (Ans op) :=
  .call op fun
    | .ok answer => .done answer
    | .error error => .raise error

def eachFrom (body : γ → β → Program Op Ans ε γ) : γ → List β → Program Op Ans ε γ
  | carried, [] => .done carried
  | carried, item :: rest => body carried item >>= fun carried => eachFrom body carried rest

def each (items : List β) (body : β → Program Op Ans ε Unit) : Program Op Ans ε Unit :=
  eachFrom (fun _ item => body item) () items

def isOver : Program Op Ans ε α → Bool
  | .call _ _ => false
  | _ => true

/-! ## Runs -/

structure Machine (Op : Type) (Ans : Op → Type) (ε σ ρ : Type) where
  answer : σ → (op : Op) → ρ → Except ε (Ans op)
  effect : σ → (op : Op) → Except ε (Ans op) → σ

variable {program : Program Op Ans ε α}

section Runs
variable {σ ρ : Type} (machine : Machine Op Ans ε σ ρ)

def Machine.after (s : σ) (op : Op) (reply : ρ) : σ :=
  machine.effect s op (machine.answer s op reply)

def run : List ρ → Program Op Ans ε α → σ → Program Op Ans ε α × σ
  | reply :: replies, .call op next, s =>
    run replies (next (machine.answer s op reply)) (machine.after s op reply)
  | _, program, s => (program, s)

def calls : List ρ → Program Op Ans ε α → σ → List (σ × Op × ρ)
  | reply :: replies, .call op next, s =>
    (s, op, reply) :: calls replies (next (machine.answer s op reply)) (machine.after s op reply)
  | _, _, _ => []

variable (replies : List ρ)

@[simp] theorem calls_nil (program : Program Op Ans ε α) (s : σ) :
    calls machine [] program s = [] := rfl

@[simp] theorem calls_done (value : α) (s : σ) :
    calls machine replies (.done value : Program Op Ans ε α) s = [] := by
  cases replies <;> rfl

@[simp] theorem calls_raise (error : ε) (s : σ) :
    calls machine replies (.raise error : Program Op Ans ε α) s = [] := by
  cases replies <;> rfl

theorem run_rel {R : σ → σ → Prop} (hrefl : ∀ s, R s s)
    (htrans : ∀ {a b c}, R a b → R b c → R a c) {replies : List ρ} {s : σ}
    (h : ∀ c ∈ calls machine replies program s, R c.1 (machine.after c.1 c.2.1 c.2.2)) :
    R s (run machine replies program s).2 := by
  induction replies generalizing program s with
  | nil => exact hrefl s
  | cons reply replies ih =>
    cases program with
    | done value => exact hrefl s
    | raise error => exact hrefl s
    | call op next =>
      obtain ⟨hcall, hrest⟩ := List.forall_mem_cons.mp h
      exact htrans hcall (ih hrest)

end Runs

/-! ## Contracts -/

/-- Between a program and its surroundings, over an account of what has been said: the
answers a call can get, what the account has to show for a call to be made, and what an
answer adds to it. -/
structure Contract (Op : Type) (Ans : Op → Type) (ε κ : Type) where
  admits : κ → (op : Op) → Except ε (Ans op) → Prop
  demands : κ → Op → Prop
  effect : κ → (op : Op) → Except ε (Ans op) → κ

section Keeps
variable {κ : Type} (contract : Contract Op Ans ε κ)

def Keeps (post : Except ε α → κ → Prop) : Program Op Ans ε α → κ → Prop
  | .done value, k => post (.ok value) k
  | .raise error, k => post (.error error) k
  | .call op next, k => contract.demands k op ∧ ∀ answer, contract.admits k op answer →
      (next answer).Keeps post (contract.effect k op answer)

variable {contract} {post : Except ε α → κ → Prop} {k : κ}

variable {op : Op}

theorem keeps_ask {post : Except ε (Ans op) → κ → Prop} :
    (ask op : Program Op Ans ε (Ans op)).Keeps contract post k ↔
      contract.demands k op ∧ ∀ answer, contract.admits k op answer →
        post answer (contract.effect k op answer) := by
  refine and_congr_right fun _ => forall_congr' fun answer => imp_congr_right fun _ => ?_
  cases answer <;> rfl

theorem Keeps.mono {post' : Except ε α → κ → Prop} (h : program.Keeps contract post k)
    (himp : ∀ r k, post r k → post' r k) : program.Keeps contract post' k := by
  induction program generalizing k with
  | done value => exact himp _ _ h
  | raise error => exact himp _ _ h
  | call op next ih => exact ⟨h.1, fun answer hanswer => ih _ (h.2 answer hanswer)⟩

variable {next : α → Program Op Ans ε β}

variable {caught : ε → Program Op Ans ε β} {body : γ → β → Program Op Ans ε γ} {items : List β}

theorem keeps_handle {post : Except ε β → κ → Prop} :
    (program.handle caught next).Keeps contract post k ↔
      program.Keeps contract (fun
        | .ok value => (next value).Keeps contract post
        | .error error => (caught error).Keeps contract post) k := by
  induction program generalizing k with
  | done value => rfl
  | raise error => rfl
  | call op answer ih =>
    exact and_congr_right fun _ => forall_congr' fun _ => imp_congr_right fun _ => ih _

theorem keeps_bind {post : Except ε β → κ → Prop} :
    (program >>= next).Keeps contract post k ↔
      program.Keeps contract (fun
        | .ok value => (next value).Keeps contract post
        | .error error => post (.error error)) k :=
  keeps_handle

theorem keeps_ask_bind {next : Ans op → Program Op Ans ε α} :
    (ask op >>= next).Keeps contract post k ↔
      contract.demands k op ∧
        (∀ answer, contract.admits k op (.ok answer) →
          (next answer).Keeps contract post (contract.effect k op (.ok answer))) ∧
        ∀ error, contract.admits k op (.error error) →
          post (.error error) (contract.effect k op (.error error)) := by
  refine and_congr_right fun _ => ⟨fun h => ⟨fun answer => h (.ok answer), fun error =>
    h (.error error)⟩, fun h answer => ?_⟩
  cases answer with
  | ok answer => exact h.1 answer
  | error error => exact h.2 error

theorem keeps_eachFrom {post : Except ε γ → κ → Prop} (inv : γ → List β → κ → Prop)
    (hend : ∀ carried k, inv carried [] k → post (.ok carried) k)
    (hround : ∀ carried item rest k, inv carried (item :: rest) k →
      (body carried item).Keeps contract (fun
        | .ok carried => inv carried rest
        | .error error => post (.error error)) k) {carried : γ} (h : inv carried items k) :
    (eachFrom body carried items).Keeps contract post k := by
  induction items generalizing carried k with
  | nil => exact hend _ _ h
  | cons item rest ih =>
    rw [eachFrom, keeps_bind]
    refine (hround carried item rest k h).mono fun r k hr => ?_
    cases r with
    | ok carried => exact ih hr
    | error error => exact hr

/-! ## The calls a program can make -/

def Uses (allowed : Op → Prop) : Program Op Ans ε α → Prop
  | .done _ => True
  | .raise _ => True
  | .call op next => allowed op ∧ ∀ answer, (next answer).Uses allowed

variable {allowed : Op → Prop}

@[simp] theorem uses_pure (value : α) : (pure value : Program Op Ans ε α).Uses allowed := trivial

@[simp] theorem uses_raise (error : ε) : (raise error : Program Op Ans ε α).Uses allowed := trivial

@[simp] theorem uses_ask :
    (ask op : Program Op Ans ε (Ans op)).Uses allowed ↔ allowed op := by
  refine and_iff_left fun answer => ?_
  cases answer <;> exact trivial

theorem Uses.handle (h : program.Uses allowed) (hcaught : ∀ error, (caught error).Uses allowed)
    (hnext : ∀ value, (next value).Uses allowed) : (program.handle caught next).Uses allowed := by
  induction program with
  | done value => exact hnext value
  | raise error => exact hcaught error
  | call op answer ih => exact ⟨h.1, fun a => ih a (h.2 a)⟩

theorem Uses.bind (h : program.Uses allowed) (hnext : ∀ value, (next value).Uses allowed) :
    (program >>= next).Uses allowed :=
  h.handle (fun _ => trivial) hnext

theorem uses_eachFrom (h : ∀ carried, ∀ item ∈ items, (body carried item).Uses allowed)
    (carried : γ) : (eachFrom body carried items).Uses allowed := by
  induction items generalizing carried with
  | nil => trivial
  | cons item rest ih =>
    obtain ⟨hitem, hrest⟩ : (∀ carried, (body carried item).Uses allowed) ∧
        ∀ carried, ∀ item ∈ rest, (body carried item).Uses allowed :=
      ⟨fun c => h c item List.mem_cons_self, fun c i hi => h c i (List.mem_cons_of_mem _ hi)⟩
    exact (hitem carried).bind fun carried => ih hrest carried

theorem Uses.mono {allowed' : Op → Prop} (h : program.Uses allowed)
    (himp : ∀ op, allowed op → allowed' op) : program.Uses allowed' := by
  induction program with
  | done value => trivial
  | raise error => trivial
  | call op next ih => exact ⟨himp op h.1, fun answer => ih answer (h.2 answer)⟩

theorem Keeps.frame {R : κ → κ → Prop} (h : program.Keeps contract post k)
    (huses : program.Uses allowed) (hrefl : ∀ k, R k k) (htrans : ∀ {a b c}, R a b → R b c → R a c)
    (hstep : ∀ k op answer, allowed op → R k (contract.effect k op answer)) :
    program.Keeps contract (fun r k' => post r k' ∧ R k k') k := by
  suffices hfrom : ∀ start, R start k →
      program.Keeps contract (fun r k' => post r k' ∧ R start k') k from hfrom k (hrefl k)
  intro start hstart
  induction program generalizing k with
  | done value => exact ⟨h, hstart⟩
  | raise error => exact ⟨h, hstart⟩
  | call op next ih =>
    refine ⟨h.1, fun answer hanswer => ?_⟩
    exact ih answer (h.2 answer hanswer) (huses.2 answer)
      (htrans hstart (hstep k op answer huses.1))

theorem Uses.keeps (huses : program.Uses allowed)
    (hcalls : ∀ op, allowed op → contract.demands k op ∧ ∀ answer, contract.effect k op answer = k) :
    program.Keeps contract (fun _ k' => k' = k) k := by
  induction program with
  | done value => rfl
  | raise error => rfl
  | call op next ih =>
    obtain ⟨hdemands, heffect⟩ := hcalls op huses.1
    refine ⟨hdemands, fun answer _ => ?_⟩
    rw [heffect answer]
    exact ih answer (huses.2 answer)

/-! ## What runs inherit -/

variable {σ ρ : Type} {machine : Machine Op Ans ε σ ρ} {agrees : κ → σ → Prop}
variable {granted : σ → Op → ρ → Prop}

variable {replies : List ρ} {s : σ}

theorem Uses.calls (h : program.Uses allowed) :
    ∀ c ∈ calls machine replies program s, allowed c.2.1 := by
  induction replies generalizing program s with
  | nil => simp
  | cons reply replies ih =>
    cases program with
    | done value => simp
    | raise error => simp
    | call op next => exact List.forall_mem_cons.mpr ⟨h.1, ih (h.2 _)⟩

/-- The contract accounts for a machine's steps, as far as its replies are granted. -/
def AccountsFor (contract : Contract Op Ans ε κ) (machine : Machine Op Ans ε σ ρ)
    (agrees : κ → σ → Prop) (granted : σ → Op → ρ → Prop) : Prop :=
  ∀ k s op reply, agrees k s → contract.demands k op → granted s op reply →
    contract.admits k op (machine.answer s op reply) ∧
      agrees (contract.effect k op (machine.answer s op reply)) (machine.after s op reply)

theorem Keeps.run (h : program.Keeps contract post k)
    (hstep : AccountsFor contract machine agrees granted) (hagrees : agrees k s)
    (hgranted : ∀ c ∈ calls machine replies program s, granted c.1 c.2.1 c.2.2) :
    ∃ k', agrees k' (run machine replies program s).2 ∧
      (run machine replies program s).1.Keeps contract post k' := by
  induction replies generalizing program k s with
  | nil => exact ⟨k, hagrees, h⟩
  | cons reply replies ih =>
    cases program with
    | done value => exact ⟨k, hagrees, h⟩
    | raise error => exact ⟨k, hagrees, h⟩
    | call op next =>
      obtain ⟨hreply, hrest⟩ := List.forall_mem_cons.mp hgranted
      obtain ⟨hadmits, hnext⟩ := hstep k s op reply hagrees h.1 hreply
      exact ih (h.2 _ hadmits) hnext hrest

theorem Keeps.calls (h : program.Keeps contract post k)
    (hstep : AccountsFor contract machine agrees granted) (hagrees : agrees k s)
    (hgranted : ∀ c ∈ calls machine replies program s, granted c.1 c.2.1 c.2.2) :
    ∀ c ∈ calls machine replies program s, ∃ k', agrees k' c.1 ∧ contract.demands k' c.2.1 := by
  induction replies generalizing program k s with
  | nil => simp
  | cons reply replies ih =>
    cases program with
    | done value => simp
    | raise error => simp
    | call op next =>
      obtain ⟨hreply, hrest⟩ := List.forall_mem_cons.mp hgranted
      obtain ⟨hadmits, hnext⟩ := hstep k s op reply hagrees h.1 hreply
      exact List.forall_mem_cons.mpr ⟨⟨k, hagrees, h.1⟩, ih (h.2 _ hadmits) hnext hrest⟩

end Keeps

end Program

end Indexterity.Library
