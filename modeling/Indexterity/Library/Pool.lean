import Mathlib.Data.List.Perm.Basic
import Mathlib.Data.List.ReduceOption
import Indexterity.Library.Program

/-!
# Programs side by side

A pool holds the programs in hand and the state they share. A move starts a program, lets one
of them make its next call, or changes the state from outside; a call is answered at once, and
between two calls of one program the others may make any number of theirs.

Each program keeps its own account of a contract. A property of the state together with all
the accounts that every call passes on holds behind any sequence of moves.
-/

namespace Indexterity.Library

structure Pool (Op : Type) (Ans : Op → Type) (ε α σ : Type) where
  state : σ
  running : List (Program Op Ans ε α)

inductive Move (Op : Type) (Ans : Op → Type) (ε α σ ρ : Type) where
  | start (program : Program Op Ans ε α)
  | step (i : Nat) (reply : ρ)
  | aside (change : σ → σ)

namespace Pool

open Program

variable {Op : Type} {Ans : Op → Type} {ε α σ ρ κ : Type} (machine : Machine Op Ans ε σ ρ)

def move (pool : Pool Op Ans ε α σ) : Move Op Ans ε α σ ρ → Pool Op Ans ε α σ
  | .start program => { pool with running := pool.running ++ [program] }
  | .step i reply =>
    match pool.running[i]? with
    | some (.call op next) =>
      ⟨machine.after pool.state op reply,
        pool.running.set i (next (machine.answer pool.state op reply))⟩
    | _ => pool
  | .aside change => { pool with state := change pool.state }

def moves (pool : Pool Op Ans ε α σ) (ms : List (Move Op Ans ε α σ ρ)) : Pool Op Ans ε α σ :=
  ms.foldl (move machine) pool

/-- The call a move makes: the state it is made in, and the reply it gets. -/
def call (pool : Pool Op Ans ε α σ) : Move Op Ans ε α σ ρ → Option (σ × Op × ρ)
  | .step i reply =>
    match pool.running[i]? with
    | some (.call op _) => some (pool.state, op, reply)
    | _ => none
  | _ => none

def calls : Pool Op Ans ε α σ → List (Move Op Ans ε α σ ρ) → List (σ × Op × ρ)
  | _, [] => []
  | pool, m :: ms => (pool.call m).toList ++ calls (pool.move machine m) ms

/-! ## Accounts -/

variable {machine} {contract : Contract Op Ans ε κ} {post : Except ε α → κ → Prop}
variable {Inv : σ → List κ → Prop} {granted : σ → Op → ρ → Prop}
variable {started : Program Op Ans ε α → Prop} {permitted : (σ → σ) → Prop}

/-- The programs in hand keep the contract, each on an account of its own. -/
def Accounted (contract : Contract Op Ans ε κ) (post : Except ε α → κ → Prop)
    (Inv : σ → List κ → Prop) (pool : Pool Op Ans ε α σ) : Prop :=
  ∃ accounts, List.Forall₂ (fun program k => program.Keeps contract post k) pool.running accounts ∧
    Inv pool.state accounts

/-- What a property of the state and the accounts has to be kept by. -/
structure Keeper (machine : Machine Op Ans ε σ ρ) (contract : Contract Op Ans ε κ)
    (post : Except ε α → κ → Prop) (Inv : σ → List κ → Prop) (granted : σ → Op → ρ → Prop)
    (started : Program Op Ans ε α → Prop) (permitted : (σ → σ) → Prop) : Prop where
  start : ∀ s accounts program, started program → Inv s accounts →
    ∃ k, program.Keeps contract post k ∧ Inv s (accounts ++ [k])
  step : ∀ s accounts i k op reply, Inv s accounts → accounts[i]? = some k →
    contract.demands k op → granted s op reply →
      contract.admits k op (machine.answer s op reply) ∧
        Inv (machine.after s op reply)
          (accounts.set i (contract.effect k op (machine.answer s op reply)))
  aside : ∀ s accounts change, permitted change → Inv s accounts → Inv (change s) accounts

def Permits (started : Program Op Ans ε α → Prop) (permitted : (σ → σ) → Prop) :
    Move Op Ans ε α σ ρ → Prop
  | .start program => started program
  | .step _ _ => True
  | .aside change => permitted change

variable {R : Program Op Ans ε α → κ → Prop} {accounts : List κ} {program : Program Op Ans ε α}
variable {programs : List (Program Op Ans ε α)}

theorem forall₂_set (h : List.Forall₂ R programs accounts) (i : Nat) {k : κ} (hset : R program k) :
    List.Forall₂ R (programs.set i program) (accounts.set i k) := by
  induction h generalizing i with
  | nil => exact .nil
  | cons hhead htail ih =>
    cases i with
    | zero => exact .cons hset htail
    | succ i => exact .cons hhead (ih i)

theorem forall₂_get (h : List.Forall₂ R programs accounts) {i : Nat}
    (hi : programs[i]? = some program) : ∃ k, accounts[i]? = some k ∧ R program k := by
  induction h generalizing i with
  | nil => cases hi
  | cons hhead htail ih =>
    cases i with
    | zero =>
      obtain rfl := Option.some.inj hi
      exact ⟨_, rfl, hhead⟩
    | succ i => exact ih hi

section
variable {pool : Pool Op Ans ε α σ}
    (hkeeper : Keeper machine contract post Inv granted started permitted)
    (h : Accounted contract post Inv pool)
include hkeeper h

theorem Accounted.move {m : Move Op Ans ε α σ ρ} (hm : Permits started permitted m)
    (hgranted : ∀ c ∈ pool.call m, granted c.1 c.2.1 c.2.2) :
    Accounted contract post Inv (pool.move machine m) := by
  obtain ⟨accounts, hkeeps, hinv⟩ := h
  cases m with
  | start program =>
    obtain ⟨k, hk, hinv'⟩ := hkeeper.start _ accounts program hm hinv
    exact ⟨accounts ++ [k], List.rel_append hkeeps (.cons hk .nil), hinv'⟩
  | aside change => exact ⟨accounts, hkeeps, hkeeper.aside _ _ _ hm hinv⟩
  | step i reply =>
    unfold Pool.move
    unfold Pool.call at hgranted
    dsimp only at hgranted ⊢
    split
    · rename_i op next hi
      rw [hi] at hgranted
      obtain ⟨k, hk, hdemands, hnext⟩ := forall₂_get hkeeps hi
      obtain ⟨hadmits, hinv'⟩ := hkeeper.step _ _ i k op reply hinv hk hdemands
        (hgranted _ rfl)
      exact ⟨_, forall₂_set hkeeps i (hnext _ hadmits), hinv'⟩
    · exact ⟨accounts, hkeeps, hinv⟩

theorem Accounted.moves {ms : List (Move Op Ans ε α σ ρ)}
    (hms : ∀ m ∈ ms, Permits started permitted m)
    (hgranted : ∀ c ∈ pool.calls machine ms, granted c.1 c.2.1 c.2.2) :
    Accounted contract post Inv (pool.moves machine ms) := by
  induction ms generalizing pool with
  | nil => exact h
  | cons m ms ih =>
    obtain ⟨hm, hms⟩ := List.forall_mem_cons.mp hms
    have hcall (c : σ × Op × ρ) (hc : c ∈ pool.call m) : granted c.1 c.2.1 c.2.2 :=
      hgranted c (List.mem_append_left _ (Option.mem_toList.mpr hc))
    exact ih (h.move hkeeper hm hcall) hms fun c hc => hgranted c (List.mem_append_right _ hc)

end

/-! ## Accounts that are open or closed -/

section Open
variable {items : List (Option κ)} {i : Nat} {k : κ}

theorem set_of_getElem? {accounts : List κ} (h : accounts[i]? = some k) :
    accounts.set i k = accounts := by
  obtain ⟨hi, rfl⟩ := List.getElem?_eq_some_iff.mp h
  exact List.set_getElem_self hi

theorem reduceOption_open (h : items[i]? = some none) :
    (items.set i (some k)).reduceOption.Perm (k :: items.reduceOption) := by
  induction items generalizing i with
  | nil => cases h
  | cons item rest ih =>
    cases i with
    | zero =>
      obtain rfl := Option.some.inj h
      exact .refl _
    | succ i =>
      cases item with
      | none => exact ih h
      | some other => exact ((ih h).cons other).trans (.swap ..)

theorem reduceOption_close (h : items[i]? = some (some k)) :
    items.reduceOption.Perm (k :: (items.set i none).reduceOption) := by
  have hlen : i < items.length := (List.getElem?_eq_some_iff.mp h).1
  have hopen := @reduceOption_open _ _ _ k (List.getElem?_set_self (a := none) hlen)
  rwa [List.set_set, set_of_getElem? h] at hopen

end Open

/-! ## What the state inherits -/

section State
variable {pool : Pool Op Ans ε α σ} {ms : List (Move Op Ans ε α σ ρ)} {m : Move Op Ans ε α σ ρ}

theorem state_of_mem_call {c : σ × Op × ρ} (hc : c ∈ pool.call m) : c.1 = pool.state := by
  unfold Pool.call at hc
  split at hc
  · split at hc
    · rw [← Option.some.inj hc]
    · cases hc
  · cases hc

theorem state_move {Inv : σ → Prop} (h : Inv pool.state)
    (hcall : ∀ c ∈ pool.call m, Inv c.1 → Inv (machine.after c.1 c.2.1 c.2.2))
    (haside : ∀ change, m = .aside change → ∀ s, Inv s → Inv (change s)) :
    Inv (pool.move machine m).state := by
  cases m with
  | start program => exact h
  | aside change => exact haside change rfl _ h
  | step i reply =>
    unfold Pool.move
    unfold Pool.call at hcall
    dsimp only at hcall ⊢
    split
    · rename_i op next hi
      rw [hi] at hcall
      exact hcall _ rfl h
    · exact h

theorem state_moves {Inv : σ → Prop} (h : Inv pool.state)
    (hcall : ∀ c ∈ pool.calls machine ms, Inv c.1 → Inv (machine.after c.1 c.2.1 c.2.2))
    (haside : ∀ change, .aside change ∈ ms → ∀ s, Inv s → Inv (change s)) :
    Inv (pool.moves machine ms).state := by
  induction ms generalizing pool with
  | nil => exact h
  | cons m ms ih =>
    refine ih (state_move h ?_ ?_) ?_ ?_
    · exact fun c hc => hcall c (List.mem_append_left _ (Option.mem_toList.mpr hc))
    · exact fun change hm => haside change (hm ▸ List.mem_cons_self)
    · exact fun c hc => hcall c (List.mem_append_right _ hc)
    · exact fun change hchange => haside change (List.mem_cons_of_mem _ hchange)

theorem calls_rel {R : σ → σ → Prop} (hrefl : ∀ s, R s s)
    (htrans : ∀ {a b c}, R a b → R b c → R a c)
    (hcall : ∀ s op reply, R s (machine.after s op reply))
    (haside : ∀ change, .aside change ∈ ms → ∀ s, R s (change s)) :
    ∀ c ∈ pool.calls machine ms, R c.1 (pool.moves machine ms).state := by
  induction ms generalizing pool with
  | nil => exact fun c hc => absurd hc List.not_mem_nil
  | cons m ms ih =>
    have hrest (change : σ → σ) (h : .aside change ∈ ms) (s : σ) : R s (change s) :=
      haside change (List.mem_cons_of_mem _ h) s
    intro c hc
    rcases List.mem_append.mp hc with hc | hc
    · rw [state_of_mem_call (Option.mem_toList.mp hc)]
      refine @state_moves _ _ _ _ _ _ machine pool (m :: ms) (R pool.state) (hrefl _) ?_ ?_
      · exact fun c _ h => htrans h (hcall _ _ _)
      · exact fun change hchange s h => htrans h (haside change hchange s)
    · exact ih hrest c hc

end State

end Pool

end Indexterity.Library
