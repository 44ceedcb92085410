import Mathlib.Data.Nat.Notation
import Mathlib.Logic.Function.Basic
import Mathlib.Tactic.Common
import RelizOS.Library.LabelledRun

/-!
# Synchronous rendezvous

Parties exchange messages without buffers: a party that sends stays where it is until the receiver
takes the message, and a party that receives stays until a message arrives. A receiver may restrict
whom it receives from by a filter; `admits φ p` says that filter `φ` lets party `p` in.

A party is idle, or holds one message for a destination, or waits with a filter. The active party of
a step tries its partner first and stays behind only if there is none:

* `deliver`: a send meets a waiting receiver that admits it;
* `post`: a send finds none, and the sender holds the message;
* `accept`: a receive finds a sender it admits;
* `wait`: a receive finds none, and the receiver waits.

## Two properties

*No missed rendezvous* (`NoMissed`): a holder and a waiter that could meet are never both left
behind. It needs nothing of the active party, which may even be one that had stayed behind before.

*Exactly once* (`Conserved`): for every pair of parties, the messages sent are the messages received
followed by the one held. It needs that a party that sends or waits is idle, for a party that
overwrites what it holds loses a message.
-/

namespace Rendezvous

open LabelledRun

/-- What a party is doing. -/
inductive Status (τ μ φ : Type) where
  /-- Nothing. -/
  | idle
  /-- It holds a message for `dst`. -/
  | sending (dst : τ) (msg : μ)
  /-- It waits for a message from a party its filter admits. -/
  | receiving (filter : φ)

/-- What a step does. -/
inductive Label (τ μ φ : Type) where
  /-- Nothing. -/
  | silent
  /-- `src` sends, and `dst` has been waiting. -/
  | deliver (src dst : τ) (filter : φ) (msg : μ)
  /-- `src` sends and holds the message. -/
  | post (src dst : τ) (msg : μ)
  /-- `dst` receives what `src` has been holding. -/
  | accept (src dst : τ) (filter : φ) (msg : μ)
  /-- `dst` receives and waits. -/
  | wait (dst : τ) (filter : φ)

variable {τ μ φ : Type} {admits : φ → τ → Prop}

/-- `src` may be received from by a party in this state. -/
def Status.Admits (admits : φ → τ → Prop) (s : Status τ μ φ) (src : τ) : Prop :=
  match s with
  | .receiving filter => admits filter src
  | _ => False

/-- The steps. -/
inductive Step [DecidableEq τ] (admits : φ → τ → Prop) (s : τ → Status τ μ φ) :
    Label τ μ φ → (τ → Status τ μ φ) → Prop
  | silent : Step admits s .silent s
  | deliver {src dst : τ} {filter : φ} {msg : μ} (hdst : s dst = .receiving filter)
      (hadmits : admits filter src) :
      Step admits s (.deliver src dst filter msg) (Function.update s dst .idle)
  | post {src dst : τ} {msg : μ} (hdst : ¬(s dst).Admits admits src) :
      Step admits s (.post src dst msg) (Function.update s src (.sending dst msg))
  | accept {src dst : τ} {filter : φ} {msg : μ} (hsrc : s src = .sending dst msg)
      (hadmits : admits filter src) :
      Step admits s (.accept src dst filter msg) (Function.update s src .idle)
  | wait {dst : τ} {filter : φ} (hnone : ∀ src msg, s src = .sending dst msg → ¬admits filter src) :
      Step admits s (.wait dst filter) (Function.update s dst (.receiving filter))

section

variable [DecidableEq τ] {s s' : τ → Status τ μ φ} {l : Label τ μ φ} {ls : List (Label τ μ φ)}

/-! ## No missed rendezvous -/

/-- No party holds a message for one that waits and would admit it. -/
def NoMissed (admits : φ → τ → Prop) (s : τ → Status τ μ φ) : Prop :=
  ∀ src dst msg, s src = .sending dst msg → ¬(s dst).Admits admits src

private theorem NoMissed.idle (h : NoMissed admits s) (p : τ) :
    NoMissed admits (Function.update s p .idle) := by
  intro src dst msg hsrc hdst
  have hs : src ≠ p := by
    rintro rfl
    rw [Function.update_self] at hsrc
    cases hsrc
  have hd : dst ≠ p := by
    rintro rfl
    rw [Function.update_self] at hdst
    exact hdst
  rw [Function.update_of_ne hs] at hsrc
  rw [Function.update_of_ne hd] at hdst
  exact h src dst msg hsrc hdst

/-- **No rendezvous is missed**, whoever acts. -/
theorem Step.noMissed (hstep : Step admits s l s') (h : NoMissed admits s) :
    NoMissed admits s' := by
  -- only a task that starts to send or to receive can make a new pair, and both look for the other
  -- first
  cases hstep with
  | silent => exact h
  | deliver => exact h.idle _
  | accept => exact h.idle _
  | @post a b m hb =>
    intro src dst msg hsrc hdst
    have hd : dst ≠ a := by
      rintro rfl
      rw [Function.update_self] at hdst
      exact hdst
    rw [Function.update_of_ne hd] at hdst
    by_cases hs : src = a
    · subst hs
      rw [Function.update_self, Status.sending.injEq] at hsrc
      exact hb (hsrc.1 ▸ hdst)
    · rw [Function.update_of_ne hs] at hsrc
      exact h src dst msg hsrc hdst
  | @wait a f hnone =>
    intro src dst msg hsrc hdst
    have hs : src ≠ a := by
      rintro rfl
      rw [Function.update_self] at hsrc
      cases hsrc
    rw [Function.update_of_ne hs] at hsrc
    by_cases hd : dst = a
    · subst hd
      rw [Function.update_self] at hdst
      exact hnone src msg hsrc hdst
    · rw [Function.update_of_ne hd] at hdst
      exact h src dst msg hsrc hdst

/-! ## Exactly once -/

/-- The message a step sends from `p` to `q`. -/
def Label.sent (p q : τ) : Label τ μ φ → List μ
  | .deliver src dst _ msg => if src = p ∧ dst = q then [msg] else []
  | .post src dst msg => if src = p ∧ dst = q then [msg] else []
  | .silent | .accept _ _ _ _ | .wait _ _ => []

/-- The message by which a step completes a send from `p` to `q`. -/
def Label.received (p q : τ) : Label τ μ φ → List μ
  | .deliver src dst _ msg => if src = p ∧ dst = q then [msg] else []
  | .accept src dst _ msg => if src = p ∧ dst = q then [msg] else []
  | .silent | .post _ _ _ | .wait _ _ => []

/-- The message a party holds for `q`. -/
def Status.held (q : τ) : Status τ μ φ → List μ
  | .sending dst msg => if dst = q then [msg] else []
  | .idle | .receiving _ => []

/-- The party that a step makes send or wait is idle. -/
def ActorIdle (s : τ → Status τ μ φ) : Label τ μ φ → Prop
  | .deliver src _ _ _ => s src = .idle
  | .post src _ _ => s src = .idle
  | .wait dst _ => s dst = .idle
  | _ => True

private theorem held_update_of_ne {p q r : τ} {t : Status τ μ φ} (h : p ≠ r) :
    (Function.update s r t p).held q = (s p).held q := by
  rw [Function.update_of_ne h]

/-- **One step conserves messages**: what is sent is received or held. -/
theorem Step.conserve (hstep : Step admits s l s') (hidle : ActorIdle s l) (p q : τ) :
    (s p).held q ++ l.sent p q = l.received p q ++ (s' p).held q := by
  -- a direct delivery is sent and received at once; the other steps move one message in or out of
  -- the hand of the sender
  cases hstep with
  | silent => simp [Label.sent, Label.received]
  | @deliver src dst filter msg hdst _ =>
    have hheld : (Function.update s dst .idle p).held q = (s p).held q := by
      by_cases hp : p = dst
      · rw [hp, Function.update_self, hdst]
        rfl
      · exact held_update_of_ne hp
    rw [hheld, Label.sent, Label.received]
    by_cases hpair : src = p ∧ dst = q
    · obtain ⟨rfl, rfl⟩ := hpair
      have hsrc : s src = .idle := hidle
      rw [hsrc, Status.held, List.nil_append, List.append_nil]
    · rw [if_neg hpair, List.append_nil, List.nil_append]
  | @post src dst msg _ =>
    have hsrc : s src = .idle := hidle
    rw [Label.sent, Label.received]
    by_cases hp : src = p
    · subst hp
      rw [hsrc, Function.update_self]
      simp [Status.held]
    · rw [held_update_of_ne (Ne.symm hp)]
      simp [hp]
  | @accept src dst filter msg hsrc _ =>
    rw [Label.sent, Label.received]
    by_cases hp : src = p
    · subst hp
      rw [hsrc, Function.update_self]
      simp [Status.held]
    · rw [held_update_of_ne (Ne.symm hp)]
      simp [hp]
  | @wait dst filter _ =>
    have hdst : s dst = .idle := hidle
    rw [Label.sent, Label.received, List.append_nil, List.nil_append]
    by_cases hp : p = dst
    · rw [hp, hdst, Function.update_self]
      rfl
    · rw [held_update_of_ne hp]

theorem Step.admits_deliver {src dst : τ} {filter : φ} {msg : μ}
    (hstep : Step admits s (.deliver src dst filter msg) s') : admits filter src := by
  cases hstep with
  | deliver _ h => exact h

theorem Step.admits_accept {src dst : τ} {filter : φ} {msg : μ}
    (hstep : Step admits s (.accept src dst filter msg) s') : admits filter src := by
  cases hstep with
  | accept _ h => exact h

end

end Rendezvous
