import RemoteVfs.Mmap

/-!
# The contract of xFetch

`xFetch` may answer NULL, and the caller reads the page itself then. The reply of a
Fetch has a data block and no room for that answer, and what `remoteFetch` gives to its
caller is an array of its own.
-/

open CMem

namespace RemoteVfs

/-- Where `*pp` leads at the return of `remoteFetch`. -/
inductive Pointee
  | null
  /-- Into a local array of the function that returns. -/
  | automatic (str : List Byte)
  | live (data : List Byte)

/-- The bytes that the caller can read there. -/
def Pointee.readable : Pointee → Option (List Byte)
  | .null | .automatic _ => none
  | .live data => some data

variable {OS : Type} (sys : MmapCalls OS) (env : Env OS)

/-- The end of `remoteFetch`: `*pp = str`, whatever the reply is. -/
def remoteFetchPp (fd : UnixFile) (iOff : I64) (nAmt : CInt)
    (outarg : Buf (Op.returnSize .fetch)) : Option (UnixFile × Pointee × CInt) :=
  ((remoteFetch env.addresses env.stack fd iOff nAmt).charToReturn outarg).map
    fun (fd, str, rc) => (fd, .automatic str.val, rc)

/-- What `xFetch` promises: the call goes through, it says NULL when `unixFetch` does,
and otherwise the mapped bytes can be read. -/
def FetchContract (fd : UnixFile) (iOff : I64) (nAmt : CInt) (s : Server OS) : Prop :=
  ∀ garbage out, ∃ argIn outarg s' fd' pp rc,
    (remoteFetch env.addresses env.stack fd iOff nAmt).argInChar = some argIn ∧
    serve env.fns env.addresses garbage .fetch argIn out s = some (outarg, s') ∧
    remoteFetchPp env fd iOff nAmt outarg = some (fd', pp, rc) ∧
    let (_, p, rc', os') := sys.unixFetch fd.core iOff nAmt s.os
    rc' = sqliteOk → rc = sqliteOk ∧ (pp = .null ↔ p = 0) ∧
      (p ≠ 0 → ∃ data, pp.readable = some data ∧
        (env.fns.memory os' p).map (·.take (sizeT nAmt)) = some data)

theorem unixFetch_ok (pFd : UnixFile) (iOff : I64) (nAmt : CInt) (os : OS)
    (h : (sys.unixFetch pFd iOff nAmt os).2.1 ≠ 0) :
    (sys.unixFetch pFd iOff nAmt os).2.2.1 = sqliteOk := by
  rcases hm : (if pFd.pMapRegion = 0 then sys.unixMapfile pFd (-1) os else (sqliteOk, pFd, os))
    with ⟨rc, pFd', os'⟩
  simp only [MmapCalls.unixFetch, hm] at h ⊢
  by_cases hmax : 0 < pFd.mmapSizeMax.toInt
  · rw [if_pos hmax] at h ⊢
    by_cases hrc : rc ≠ sqliteOk
    · rw [if_pos hrc] at h
      exact absurd rfl h
    · rw [if_neg hrc]
      split <;> rfl
  · rw [if_neg hmax]

variable {sys env}

/-- NULL is copied from, and a pointer leads to what is gone. -/
theorem fetch_never_keeps (hmaps : env.fns.Maps sys) (fd : UnixFile) (iOff : I64) (nAmt : CInt)
    (s : Server OS) : ¬ FetchContract sys env fd iOff nAmt s := by
  intro h
  obtain ⟨argIn, outarg, s', fd', pp, rc, hargIn, hserve, hpp, hkeeps⟩ :=
    h (fun _ => 0) (Buf.zeros _)
  obtain ⟨id, zPath, iOff', nAmt', g, pData, rc', id', hdec, hfetch, -⟩ := serve_fetch hserve
  have hsent := unixFetch_request fd iOff nAmt (Buf.zeros (Op.argInSize .fetch)) (by decide)
  obtain ⟨argIn', hargIn', hsent⟩ := Option.bind_eq_some_iff.mp hsent
  obtain rfl := Option.some.inj (hargIn'.symm.trans hargIn)
  obtain ⟨rfl, rfl, rfl⟩ : fd = id ∧ iOff = iOff' ∧ nAmt = nAmt' := by
    simpa using hsent.symm.trans hdec
  rcases hr : sys.unixFetch fd.core iOff nAmt s.os with ⟨pFd, p, rc'', os'⟩
  rw [hr] at hkeeps
  simp only [hmaps.fetch, hr, Prod.mk.injEq] at hfetch
  have hp : p ≠ 0 := by
    rintro rfl
    cases hfetch.2.1
  have hok := unixFetch_ok sys fd.core iOff nAmt s.os (by rw [hr]; exact hp)
  rw [hr] at hok
  obtain ⟨-, -, hread⟩ := hkeeps hok
  obtain ⟨data, hdata, -⟩ := hread hp
  obtain ⟨⟨fd'', str, rc₀⟩, -, hlocal⟩ := Option.map_eq_some_iff.mp hpp
  obtain ⟨-, hlocal⟩ := Prod.mk.inj hlocal
  obtain ⟨rfl, -⟩ := Prod.mk.inj hlocal
  cases hdata

theorem fetch_never_keeps_mapped :
    ¬ FetchContract Disk.mmapCalls Disk.mappedEnv Disk.mappedFile.image 0 4
      ⟨Disk.mappedFile.server.table, Disk.mappedFile.server.os.1⟩ :=
  fetch_never_keeps Disk.maps Disk.mappedFile.image 0 4 _

/-- A page behind the end of the file is not mapped. -/
theorem fetch_behind_end :
    ¬ FetchContract Disk.mmapCalls Disk.mappedEnv Disk.mappedFile.image 4096 4
      ⟨Disk.mappedFile.server.table, Disk.mappedFile.server.os.1⟩ := by
  intro h
  obtain ⟨argIn, outarg, s', -, -, -, hargIn, hserve, -⟩ := h (fun _ => 0) (Buf.zeros _)
  have hnone : ((remoteFetch Disk.mappedEnv.addresses Disk.mappedEnv.stack
      Disk.mappedFile.image 4096 4).argInChar.bind fun argIn =>
        (serve Disk.mappedEnv.fns Disk.mappedEnv.addresses (fun _ => 0) .fetch argIn
          (Buf.zeros (Op.returnSize .fetch))
          ⟨Disk.mappedFile.server.table, Disk.mappedFile.server.os.1⟩).map (·.1)) = none := by
    decide +kernel
  rw [hargIn, Option.bind_some, hserve] at hnone
  cases hnone

end RemoteVfs
