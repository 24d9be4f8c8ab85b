import RemoteVfs.Client
import RemoteVfs.Runs
import RemoteVfs.Server

/-!
# Clients and server together

`H` are the places for an open file, those of all clients. Each of them has at
most one outstanding call. The handlers run one after the other.
-/

open CMem

namespace RemoteVfs

/-- Where the call of a handle is. -/
inductive Phase
  | idle
  | sent (c : Call) (argIn : Buf c.op.argInSize)
  | served (c : Call) (outarg : Buf c.op.returnSize)
  /-- The status of the stub call is not OK, with or without an execution. -/
  | failed (c : Call) (executed : Bool)

/-- A call that has returned. -/
structure Entry (H : Type) where
  handle : H
  call : Call
  result : Result
  executed : Bool
  failed : Bool

/-- `trace` lists the calls that have returned, the last one first. -/
structure System (OS H : Type) where
  image : H → UnixFile
  phase : H → Phase
  server : Server OS
  trace : List (Entry H)

inductive Event (H : Type)
  | send (h : H) (c : Call)
  /-- The handler runs, on what the stack holds, and the request is answered. -/
  | serve (h : H) (garbage outStruct : Nat → Byte)
  | fail (h : H)
  | recv (h : H)

/-- What the model takes from its surroundings. -/
structure Env (OS : Type) where
  fns : UnixFns OS
  addresses : Addresses
  /-- The length of the string at an address of a client's memory. -/
  strlen : Ptr → Option Nat
  /-- What the stack of a client holds. -/
  stack : Nat → Byte

namespace System

variable {OS H : Type} [DecidableEq H] (env : Env OS)

/-- No call is outstanding, and no request has reached the server. -/
def init (image : H → UnixFile) (table : FdTable) (os : OS) : System OS H :=
  ⟨image, fun _ => .idle, ⟨table, os⟩, []⟩

/-- The call of `h` returns, with the reply or without one. -/
def finish (s : System OS H) (h : H) (c : Call) (outarg : Option (Buf c.op.returnSize))
    (executed : Bool) : Option (System OS H) := do
  let (id, result) ←
    (c.remote env.addresses env.strlen env.stack (s.image h)).finish outarg
  return { s with
    image := Function.update s.image h id
    phase := Function.update s.phase h .idle
    trace := ⟨h, c, result, executed, outarg.isNone⟩ :: s.trace }

def step (s : System OS H) (e : Event H) : Option (System OS H) :=
  match e with
  | .send h c =>
    match s.phase h with
    | .idle => do
      let argIn ← (c.remote env.addresses env.strlen env.stack (s.image h)).argInChar
      return { s with
        image := Function.update s.image h (c.imageBefore (s.image h))
        phase := Function.update s.phase h (.sent c argIn) }
    | _ => none
  | .serve h garbage outStruct =>
    match s.phase h with
    | .sent c argIn => do
      let (outarg, server) ← serve env.fns env.addresses garbage c.op argIn
        (Buf.uninit outStruct c.op.returnSize) s.server
      return { s with
        phase := Function.update s.phase h (.served c outarg)
        server := server }
    | _ => none
  | .fail h =>
    match s.phase h with
    | .sent c _ => some { s with phase := Function.update s.phase h (.failed c false) }
    | .served c _ => some { s with phase := Function.update s.phase h (.failed c true) }
    | _ => none
  | .recv h =>
    match s.phase h with
    | .served c outarg => s.finish env h c (some outarg) true
    | .failed c executed => s.finish env h c none executed
    | _ => none

/-! ## What a step does -/

variable {env} {s s' : System OS H} {h : H}

theorem step_send {c : Call} (hs : s.step env (.send h c) = some s') :
    s.phase h = .idle ∧
    ∃ argIn, (c.remote env.addresses env.strlen env.stack (s.image h)).argInChar = some argIn ∧
      s' = { s with
        image := Function.update s.image h (c.imageBefore (s.image h))
        phase := Function.update s.phase h (.sent c argIn) } := by
  simp only [step] at hs
  split at hs
  · next hp =>
    obtain ⟨argIn, harg, hs'⟩ := Option.bind_eq_some_iff.mp hs
    exact ⟨hp, argIn, harg, (Option.some.inj hs').symm⟩
  · cases hs

theorem step_serve {garbage outStruct : Nat → Byte}
    (hs : s.step env (.serve h garbage outStruct) = some s') :
    ∃ c argIn outarg server, s.phase h = .sent c argIn ∧
      serve env.fns env.addresses garbage c.op argIn (Buf.uninit outStruct c.op.returnSize)
        s.server = some (outarg, server) ∧
      s' = { s with
        phase := Function.update s.phase h (.served c outarg)
        server := server } := by
  simp only [step] at hs
  split at hs
  · next c argIn hp =>
    obtain ⟨⟨outarg, server⟩, hserve, hs'⟩ := Option.bind_eq_some_iff.mp hs
    exact ⟨c, argIn, outarg, server, hp, hserve, (Option.some.inj hs').symm⟩
  · cases hs

theorem step_fail (hs : s.step env (.fail h) = some s') :
    ∃ c executed, s' = { s with phase := Function.update s.phase h (.failed c executed) } ∧
      ((∃ argIn, s.phase h = .sent c argIn) ∧ executed = false ∨
        (∃ outarg, s.phase h = .served c outarg) ∧ executed = true) := by
  simp only [step] at hs
  split at hs
  · next c argIn hp => exact ⟨c, false, (Option.some.inj hs).symm, .inl ⟨⟨argIn, hp⟩, rfl⟩⟩
  · next c outarg hp => exact ⟨c, true, (Option.some.inj hs).symm, .inr ⟨⟨outarg, hp⟩, rfl⟩⟩
  · cases hs

theorem finish_eq_some {c : Call} {outarg : Option (Buf c.op.returnSize)} {executed : Bool}
    (hs : s.finish env h c outarg executed = some s') :
    ∃ id result,
      (c.remote env.addresses env.strlen env.stack (s.image h)).finish outarg =
        some (id, result) ∧
      s' = { s with
        image := Function.update s.image h id
        phase := Function.update s.phase h .idle
        trace := ⟨h, c, result, executed, outarg.isNone⟩ :: s.trace } := by
  obtain ⟨⟨id, result⟩, hfin, hs'⟩ := Option.bind_eq_some_iff.mp hs
  exact ⟨id, result, hfin, (Option.some.inj hs').symm⟩

theorem step_recv (hs : s.step env (.recv h) = some s') :
    ∃ c outarg executed, s.finish env h c outarg executed = some s' ∧
      ((∃ reply, outarg = some reply ∧ s.phase h = .served c reply ∧ executed = true) ∨
        outarg = none ∧ s.phase h = .failed c executed) := by
  simp only [step] at hs
  split at hs
  · next c outarg hp => exact ⟨c, some outarg, true, hs, .inl ⟨outarg, rfl, hp, rfl⟩⟩
  · next c executed hp => exact ⟨c, none, executed, hs, .inr ⟨rfl, hp⟩⟩
  · cases hs

end System

end RemoteVfs
