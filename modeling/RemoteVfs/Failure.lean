import RemoteVfs.Client.Shape
import RemoteVfs.Disk

/-!
# When the RPC fails

A stub whose status is not OK writes nothing. The operations do not look at what
the stub returns, and go on with the zeros in `argOutChar`.
-/

open CMem

namespace RemoteVfs

/-! ## One call -/

variable {OS : Type}

/-- A failed RPC is an error, and leaves the client as it was. -/
def Call.FailsSafely (c : Call) (env : Env OS) (id : UnixFile) : Prop :=
  ∃ rc, rc ≠ sqliteOk ∧
    (c.remote env.addresses env.strlen env.stack (c.imageBefore id)).finish none =
      some (c.imageBefore id, ⟨rc, c.outBefore⟩)

theorem get_zeros {n off : Nat} {x : CInt} (h : (Buf.zeros n).get CInt off = some x) :
    x = sqliteOk := by
  obtain ⟨data, hdata, rfl⟩ := Option.map_eq_some_iff.mp h
  obtain ⟨hle, rfl⟩ := Buf.read_eq_some hdata
  have hzeros : (Buf.zeros n).slice off 4 = List.replicate 4 0 := by
    have hlen : off + 4 ≤ n := hle
    simp only [Buf.slice, Buf.zeros, List.drop_replicate, List.take_replicate]
    congr 1
    omega
  change ofBytes ((Buf.zeros n).slice off 4) = sqliteOk
  rw [hzeros]
  decide

/-- Every operation that comes back from a failed RPC says that all went well. -/
theorem finish_none_rc {env : Env OS} {id img : UnixFile} {c : Call} {res : Result}
    (h : (c.remote env.addresses env.strlen env.stack id).finish none = some (img, res)) :
    res.rc = sqliteOk := by
  obtain ⟨off, hrc⟩ := remote_readsRc env.strlen env.stack id c _ _ h
  exact get_zeros hrc

theorem not_failsSafely (env : Env OS) (c : Call) (id : UnixFile) : ¬ c.FailsSafely env id := by
  rintro ⟨rc, hrc, h⟩
  exact hrc (finish_none_rc h)

/-! ## The path name -/

/-- The objects of the caller, and `nOut + 4` as an `int`, are large enough. -/
structure FullPathnameFits (zPath : List Byte) (nOut : CInt) (zOut : List Byte) : Prop where
  nonneg : 0 ≤ nOut.toInt
  no_overflow : nOut.toInt + 4 < 2 ^ 31
  path : nOut.toInt ≤ zPath.length
  out : nOut.toInt ≤ zOut.length

theorem sizeT_of_neg {n : CInt} (h : n.toInt < 0) : 2 ^ 63 ≤ sizeT n := by
  have hmsb : n.msb = true := by rw [BitVec.msb_eq_toInt]; simpa using h
  rw [sizeT, BitVec.toNat_signExtend, hmsb, if_pos rfl]
  exact le_add_left (by norm_num)

theorem argLen_fits {nOut : CInt} (hpos : 0 < (getFullPathnameArgLen nOut).toInt)
    (h : 4 + sizeT nOut ≤ sizeT (getFullPathnameArgLen nOut)) :
    0 ≤ nOut.toInt ∧ nOut.toInt + 4 < 2 ^ 31 := by
  rw [sizeT_of_nonneg _ hpos.le] at h
  have hlt : (getFullPathnameArgLen nOut).toInt < 2 ^ 31 := BitVec.toInt_lt
  by_cases hneg : nOut.toInt < 0
  · have := sizeT_of_neg hneg
    omega
  · rw [sizeT_of_nonneg nOut (not_lt.mp hneg)] at h
    omega

theorem FullPathnameFits.argLen {zPath zOut : List Byte} {nOut : CInt}
    (h : FullPathnameFits zPath nOut zOut) :
    (getFullPathnameArgLen nOut).toInt = nOut.toInt + 4 := by
  have h0 := h.nonneg
  have h1 := h.no_overflow
  rw [getFullPathnameArgLen, BitVec.toInt_add]
  have h4 : (BitVec.ofNat 32 (sizeof CInt)).toInt = 4 := by decide
  rw [h4, Int.bmod_eq_of_le (by omega) (by omega)]
  omega

/-- The reply buffer is the only one that `memset` has not cleared: what the stack holds
there counts as the reply. -/
structure StackAnswers (stack : Nat → Byte) (nOut : CInt) (zOut : List Byte) : Prop where
  same : (List.range nOut.toInt.toNat).map stack = zOut.take nOut.toInt.toNat
  error : (ofBytes ((List.range 4).map fun i => stack (nOut.toInt.toNat + i)) : CInt) ≠ sqliteOk

/-- As `Call.FailsSafely`. -/
def FullPathnameFailsSafely (stack : Nat → Byte) (zPath : List Byte) (nOut : CInt)
    (zOut : List Byte) : Prop :=
  ∃ rc, rc ≠ sqliteOk ∧
    remoteFullPathname stack zPath nOut zOut (fun _ => none) = some (zOut, rc)

theorem fullPathname_fits {stack : Nat → Byte} {zPath zOut : List Byte} {nOut : CInt}
    {r : List Byte × CInt}
    (h : remoteFullPathname stack zPath nOut zOut (fun _ => none) = some r) :
    FullPathnameFits zPath nOut zOut := by
  rw [remoteFullPathname] at h
  dsimp only at h
  split at h
  · cases h
  · next hpos =>
    obtain ⟨argIn, harg, h⟩ := Option.bind_eq_some_iff.mp h
    obtain ⟨r', hret, -⟩ := Option.bind_eq_some_iff.mp h
    obtain ⟨arg, -, harg⟩ := Option.bind_eq_some_iff.mp harg
    obtain ⟨path, hpath, harg⟩ := Option.bind_eq_some_iff.mp harg
    obtain ⟨data, hdata, hret⟩ := Option.bind_eq_some_iff.mp hret
    obtain ⟨zOut', hzOut, -⟩ := Option.bind_eq_some_iff.mp hret
    obtain ⟨hlen, rfl⟩ := Buf.read_eq_some hpath
    obtain ⟨hread, rfl⟩ := Buf.read_eq_some hdata
    have hin := (Buf.write_eq_some harg).1
    have hout := (Buf.write_eq_some hzOut).1
    rw [Buf.slice_length _ _ _ hlen] at hin
    rw [Buf.slice_length _ _ _ hread] at hout
    obtain ⟨h0, h1⟩ := argLen_fits (not_le.mp hpos) hin
    rw [sizeT_of_nonneg nOut h0] at hlen hout
    exact ⟨h0, h1, by omega, by omega⟩

section Fits

variable {stack : Nat → Byte} {zPath zOut : List Byte} {nOut : CInt}

theorem FullPathnameFits.sizeT_argLen (h : FullPathnameFits zPath nOut zOut) :
    sizeT (getFullPathnameArgLen nOut) = nOut.toInt.toNat + 4 := by
  have h0 := h.nonneg
  have harg := h.argLen
  rw [sizeT_of_nonneg _ (by omega)]
  omega

theorem FullPathnameFits.request (h : FullPathnameFits zPath nOut zOut) :
    (unixFullPathnameConvertArgInToChar (Buf.ofObject zPath) nOut
      (Buf.zeros (sizeT (getFullPathnameArgLen nOut)))).isSome := by
  have hN := sizeT_of_nonneg nOut h.nonneg
  have hM := h.sizeT_argLen
  have hpath := h.path
  have hlen : 0 + sizeT nOut ≤ zPath.length := by omega
  have hput : (Buf.zeros (sizeT (getFullPathnameArgLen nOut))).put 0 nOut = _ :=
    Buf.put_eq _ nOut (by rw [hM]; simp)
  rw [unixFullPathnameConvertArgInToChar, hput, Buf.read_eq _ hlen, Option.bind_eq_bind,
    Option.bind_some, Option.bind_eq_bind, Option.bind_some, Buf.write_eq]
  · rfl
  · rw [Buf.slice_length _ _ _ hlen, hM, hN]
    exact (Nat.add_comm _ _).le

theorem FullPathnameFits.reply (h : FullPathnameFits zPath nOut zOut) :
    unixFullPathnameConvertCharToReturn
        (Buf.uninit stack (sizeT (getFullPathnameReturnLen nOut))) nOut (Buf.ofObject zOut) =
      some ((Buf.ofObject zOut).splice 0 ((List.range nOut.toInt.toNat).map stack),
        ofBytes ((List.range 4).map fun i => stack (nOut.toInt.toNat + i))) := by
  have hN := sizeT_of_nonneg nOut h.nonneg
  have hM : sizeT (getFullPathnameReturnLen nOut) = nOut.toInt.toNat + 4 := h.sizeT_argLen
  have hout := h.out
  have hread : 0 + nOut.toInt.toNat ≤ sizeT (getFullPathnameReturnLen nOut) := by omega
  have hrc : nOut.toInt.toNat + 4 ≤ sizeT (getFullPathnameReturnLen nOut) := by omega
  have hslice := Buf.slice_uninit stack hread
  simp only [Nat.zero_add] at hslice
  rw [unixFullPathnameConvertCharToReturn, hN, Buf.read_eq _ hread, hslice, Option.bind_eq_bind,
    Option.bind_some, Buf.write_eq _ (by simp; omega), Option.bind_eq_bind, Option.bind_some,
    Buf.get_eq _ hrc]
  exact congrArg (fun b : List Byte => some (_, (ofBytes b : CInt))) (Buf.slice_uninit stack hrc)

theorem FullPathnameFits.run (h : FullPathnameFits zPath nOut zOut) :
    remoteFullPathname stack zPath nOut zOut (fun _ => none) =
      some ((List.range nOut.toInt.toNat).map stack ++ zOut.drop nOut.toInt.toNat,
        ofBytes ((List.range 4).map fun i => stack (nOut.toInt.toNat + i))) := by
  have harg := h.argLen
  have h0 := h.nonneg
  have hout := h.out
  obtain ⟨argIn, hrequest⟩ := Option.isSome_iff_exists.mp h.request
  rw [remoteFullPathname]
  dsimp only
  rw [if_neg (by omega), hrequest, Option.bind_eq_bind, Option.bind_some, Option.getD_none,
    h.reply, Option.bind_eq_bind, Option.bind_some, Buf.splice_val _ _ _ (by simp; omega)]
  simp [Buf.ofObject]

end Fits

theorem fullPathnameFailsSafely_iff {stack : Nat → Byte} {zPath : List Byte} {nOut : CInt}
    {zOut : List Byte} :
    FullPathnameFailsSafely stack zPath nOut zOut ↔
      FullPathnameFits zPath nOut zOut ∧ StackAnswers stack nOut zOut := by
  constructor
  · rintro ⟨rc, hrc, h⟩
    have hfits := fullPathname_fits h
    rw [hfits.run, Option.some.injEq, Prod.mk.injEq] at h
    refine ⟨hfits, ?_, h.2 ▸ hrc⟩
    have hlen : ((List.range nOut.toInt.toNat).map stack).length = nOut.toInt.toNat := by simp
    rw [← h.1, List.take_left' hlen]
  · rintro ⟨hfits, hsame, herror⟩
    refine ⟨_, herror, ?_⟩
    rw [hfits.run, hsame, List.take_append_drop]

/-! ## Runs -/

/-- What a caller must not take for done when it is not. -/
def Call.isUpdate : Call → Bool
  | .xWrite .. | .xTruncate _ | .xSync _ | .xLock _ => true
  | _ => false

namespace System

variable {H : Type}

/-- No update has returned OK that the server has not executed. -/
def NoneLost (s : System OS H) : Prop :=
  ∀ e ∈ s.trace, e.call.isUpdate → e.result.rc = sqliteOk → e.executed = true

/-- It is not an update whose RPC has failed ahead of the server that returns. -/
def Delivered (s : System OS H) : Event H → Prop
  | .recv h => ∀ c, s.phase h = .failed c false → ¬ c.isUpdate
  | _ => True

variable [DecidableEq H] {env : Env OS} {s s' : System OS H} {e : Event H}

theorem noneLost_step (hs : NoneLost s) (h : s.step env e = some s') :
    NoneLost s' ↔ s.Delivered e := by
  cases e with
  | send i c =>
    obtain ⟨-, argIn, -, rfl⟩ := step_send h
    exact ⟨fun _ => trivial, fun _ => hs⟩
  | serve i garbage outStruct =>
    obtain ⟨c, argIn, outarg, server, -, -, rfl⟩ := step_serve h
    exact ⟨fun _ => trivial, fun _ => hs⟩
  | fail i =>
    obtain ⟨c, executed, rfl, -⟩ := step_fail h
    exact ⟨fun _ => trivial, fun _ => hs⟩
  | recv i =>
    obtain ⟨c, outarg, executed, hfin, hphase⟩ := step_recv h
    obtain ⟨id, result, hret, rfl⟩ := finish_eq_some hfin
    rcases hphase with ⟨reply, -, hserved, rfl⟩ | ⟨rfl, hfailed⟩
    · refine ⟨fun _ c' hc' => ?_, fun _ e he => ?_⟩
      · rw [hserved] at hc'
        cases hc'
      · rcases List.mem_cons.mp he with rfl | he
        · exact fun _ _ => rfl
        · exact hs e he
    · have hrc := finish_none_rc hret
      constructor
      · intro hnone c' hc' hupdate
        rw [hfailed] at hc'
        obtain ⟨rfl, rfl⟩ := Phase.failed.inj hc'
        cases hnone _ (List.mem_cons_self ..) hupdate hrc
      · intro hdel e he hupdate hok
        rcases List.mem_cons.mp he with rfl | he
        · cases executed with
          | true => rfl
          | false => exact absurd hupdate (hdel c hfailed)
        · exact hs e he hupdate hok

/-- A client opens a file. Then it writes to it, and the server is out of reach. -/
def openLostWrite : List (Event Unit) :=
  [.send () (.xOpen (some [97, 0]) UnixFile.zero 0x106 (some 0x106)),
    .serve () (fun _ => 1) (fun _ => 2), .recv (),
    .send () (.xWrite [7, 8] 2 0), .fail (), .recv ()]

theorem openLostWrite_run : ∃ s, Runs.run (System.step Disk.env)
      (System.init (fun _ => UnixFile.zero) Disk.table ⟨[], 3⟩) openLostWrite = some s ∧
    ¬ NoneLost s ∧ s.server.os.data = [] ∧ s.image () = UnixFile.zero := by
  obtain ⟨s, hs⟩ := Option.isSome_iff_exists.mp (by decide +kernel :
    (Runs.run (System.step Disk.env)
      (System.init (fun _ => UnixFile.zero) Disk.table ⟨[], 3⟩) openLostWrite).isSome)
  have hlost : (Runs.run (System.step Disk.env)
      (System.init (fun _ => UnixFile.zero) Disk.table ⟨[], 3⟩) openLostWrite).map (fun s =>
        (s.trace.any fun e => e.call.isUpdate && decide (e.result.rc = sqliteOk) && !e.executed,
          s.server.os.data, toBytes (s.image ()))) =
      some (true, [], toBytes UnixFile.zero) := by
    decide +kernel
  rw [hs, Option.map_some, Option.some.injEq, Prod.mk.injEq, Prod.mk.injEq] at hlost
  obtain ⟨hany, hdata, himage⟩ := hlost
  refine ⟨s, hs, fun hnone => ?_, hdata, ?_⟩
  · obtain ⟨e, he, hlost⟩ := List.any_eq_true.mp hany
    simp only [Bool.and_eq_true, decide_eq_true_eq, Bool.not_eq_true'] at hlost
    rw [hnone e he hlost.1.1 hlost.1.2] at hlost
    cases hlost.2
  · simpa only [CType.ofBytes_toBytes] using congrArg (ofBytes (α := UnixFile)) himage

/-- An operation whose RPC fails never says so, but for a path name that is answered by the
stack; and a run has no lost update exactly if none fails ahead of the server. -/
theorem failed_rpc_is_error_iff (env : Env OS) :
    (∀ (c : Call) (id : UnixFile), ¬ c.FailsSafely env id) ∧
    (∀ (stack : Nat → Byte) (zPath : List Byte) (nOut : CInt) (zOut : List Byte),
      FullPathnameFailsSafely stack zPath nOut zOut ↔
        FullPathnameFits zPath nOut zOut ∧ StackAnswers stack nOut zOut) ∧
    ∀ (image : H → UnixFile) (table : FdTable) (os : OS) (es : List (Event H))
      (s : System OS H), Runs.run (System.step env) (System.init image table os) es = some s →
      (Runs.Along (System.step env) NoneLost (System.init image table os) es ↔
        Runs.Allowed (System.step env) Delivered (System.init image table os) es) := by
  refine ⟨not_failsSafely env, fun stack zPath nOut zOut => fullPathnameFailsSafely_iff,
    fun image table os es s hrun => ?_⟩
  exact @Runs.along_iff_allowed _ _ _ (fun _ => True) _ (fun _ _ => True) _
    (fun s e s' _ _ hs h => ⟨trivial, noneLost_step hs h⟩) _ _ _
    (.of_mem (fun _ _ _ => trivial) _) trivial nofun hrun

theorem failed_rpc_is_error_iff_openLostWrite :
    ¬ Runs.Allowed (System.step Disk.env) Delivered
      (System.init (fun _ => UnixFile.zero) Disk.table ⟨[], 3⟩) openLostWrite := by
  obtain ⟨s, hs, hlost, -⟩ := openLostWrite_run
  have hiff := (failed_rpc_is_error_iff Disk.env).2.2 _ _ _ openLostWrite s hs
  exact fun hok => hlost ((hiff.mpr hok).last hs)

theorem failed_write_returns_ok :
    (∀ id, ¬ (Call.xWrite [7, 8] 2 0).FailsSafely Disk.env id) ∧
    ∃ s, Runs.run (System.step Disk.env)
        (System.init (fun _ => UnixFile.zero) Disk.table ⟨[], 3⟩) openLostWrite = some s ∧
      ¬ NoneLost s := by
  obtain ⟨s, hs, hlost, -⟩ := openLostWrite_run
  exact ⟨not_failsSafely Disk.env _, s, hs, hlost⟩

end System

end RemoteVfs
