import RemoteVfs.UnixIo

/-!
# What a read gives and a write leaves

The loops of `seekAndRead` and `unixWrite`, for any interruptions, short transfers and
failures on the way.
-/

open CMem Posix FileData

namespace RemoteVfs

open LockCalls (storeLastErrno)

namespace UnixIo

variable {P F : Type} [DecidableEq P] [DecidableEq F] {p : P}

/-! ## What a read gives -/

section Read

omit [DecidableEq F]

variable {id : UnixFile} {k : Kernel P F} {f : F}

/-- What has been read is right, and it is all that there is, unless a call has failed. -/
def Fetched (id id' : UnixFile) (d : List Byte) (offset cnt : Nat) (got : Int)
    (prior buf : List Byte) : Prop :=
  ∃ n ≤ cnt, buf = prior ++ readAt d offset n ∧
    ((∃ errno, id' = storeLastErrno id errno ∧ got = -1) ∨
      id' = id ∧ n = cnt ∧ got = buf.length)

theorem seekAndRead_spec {offset : Int} {cnt : Nat} {prior : List Byte}
    (hf : k.Opens p id.h f) (hoff : 0 ≤ offset) {id' : UnixFile} {got : Int} {buf : List Byte}
    {k' : Kernel P F} (h : seekAndRead p id offset cnt prior k = (id', got, buf, k')) :
    Kernel.Same k k' ∧ k'.data = k.data ∧
      Fetched id id' (k.data f) offset.toNat cnt got prior buf := by
  fun_induction seekAndRead p id offset cnt prior k with
  | case1 offset cnt prior k errno k₁ hseek =>
    obtain ⟨hsame, hdata, -⟩ := Kernel.lseek_keeps hf hseek
    cases h
    exact ⟨hsame, hdata, 0, Nat.zero_le _, by simp [readAt], .inl ⟨errno, rfl, rfl⟩⟩
  | case2 offset cnt prior k u k₁ hseek k₂ hread ih =>
    obtain ⟨hsame₁, hdata₁, hseeked⟩ := Kernel.lseek_keeps hf hseek
    obtain ⟨o, hfd, rfl, hpos⟩ := hseeked rfl
    obtain ⟨hsame₂, hdata₂, -⟩ := Kernel.read_keeps hfd hread
    obtain ⟨hsame, hdata, hfetched⟩ := ih ((hsame₁.trans hsame₂).opens hf) hoff h
    rw [hdata₂, hdata₁] at hdata hfetched
    exact ⟨(hsame₁.trans hsame₂).trans hsame, hdata, hfetched⟩
  | case3 offset cnt prior k u k₁ hseek errno k₂ hread hne =>
    obtain ⟨hsame₁, hdata₁, hseeked⟩ := Kernel.lseek_keeps hf hseek
    obtain ⟨o, hfd, rfl, hpos⟩ := hseeked rfl
    obtain ⟨hsame₂, hdata₂, -⟩ := Kernel.read_keeps hfd hread
    cases h
    exact ⟨hsame₁.trans hsame₂, hdata₂.trans hdata₁, 0, Nat.zero_le _, by simp [readAt],
      .inl ⟨errno, rfl, rfl⟩⟩
  | case4 offset cnt prior k u k₁ hseek data k₂ hread hend =>
    obtain ⟨hsame₁, hdata₁, hseeked⟩ := Kernel.lseek_keeps hf hseek
    obtain ⟨o, hfd, rfl, hpos⟩ := hseeked rfl
    obtain ⟨hsame₂, hdata₂, hgot⟩ := Kernel.read_keeps hfd hread
    obtain ⟨n, hn, hzero, rfl⟩ := hgot data rfl
    cases h
    rw [hdata₁, hpos] at hend ⊢
    have hall : readAt (k.data o.file) offset.toNat n =
        readAt (k.data o.file) offset.toNat cnt := by
      have hlen : (readAt (k.data o.file) offset.toNat n).length = _ := length_readAt
      rcases hend with hfull | hnil
      · rw [show n = cnt by omega]
      · rw [hnil, List.length_nil] at hlen
        rcases Nat.eq_zero_or_pos n with h0 | hpos
        · rw [h0, hzero h0]
        · exact (readAt_of_le (by omega) hn).symm
    exact ⟨hsame₁.trans hsame₂, hdata₂.trans hdata₁, cnt, le_rfl, by rw [hall],
      .inr ⟨rfl, rfl, rfl⟩⟩
  | case5 offset cnt prior k u k₁ hseek data k₂ hread hend ih =>
    obtain ⟨hsame₁, hdata₁, hseeked⟩ := Kernel.lseek_keeps hf hseek
    obtain ⟨o, hfd, rfl, hpos⟩ := hseeked rfl
    obtain ⟨hsame₂, hdata₂, hgot⟩ := Kernel.read_keeps hfd hread
    obtain ⟨n, hn, -, hpart⟩ := hgot data rfl
    have hle : data.length ≤ cnt := by
      rw [hpart, length_readAt]
      omega
    have hfirst : data = readAt (k.data o.file) offset.toNat data.length := by
      rw [hdata₁, hpos] at hpart
      rw [hpart, readAt_length]
    obtain ⟨hsame, hdata, m, hm, hbuf, hcase⟩ :=
      ih ((hsame₁.trans hsame₂).opens hf) (by omega) h
    rw [hdata₂, hdata₁] at hdata hbuf
    refine ⟨(hsame₁.trans hsame₂).trans hsame, hdata, data.length + m, by omega, ?_, ?_⟩
    · have hoffset : (offset + data.length).toNat = offset.toNat + data.length := by omega
      rw [hbuf, hoffset, List.append_assoc, ← readAt_append, ← hfirst]
    · refine hcase.imp_right ?_
      rintro ⟨hid, hmcnt, hgot⟩
      exact ⟨hid, by omega, hgot⟩

theorem byte_splice {n off i : Nat} {b : Buf n} {src : List Byte} (h : off + src.length ≤ n) :
    byte (b.splice off src).val i =
      if off ≤ i ∧ i < off + src.length then byte src (i - off) else byte b.val i := by
  have hwrite : (b.splice off src).val = writeAt b.val off src := by
    rw [Buf.splice_val b off src h, writeAt, b.property, Nat.sub_eq_zero_of_le (by omega)]
    by_cases hs : src = []
    · simp [hs]
    · simp [hs]
  rw [hwrite, byte_writeAt]

/-- The bytes of the file, with zeros behind its end, and whether they are all there. -/
structure Gives (d : List Byte) (offset n : Nat) (buf : List Byte) (rc : CInt) : Prop where
  bytes : ∀ i < n, byte buf i = byte d (offset + i)
  rc : rc = if offset + n ≤ d.length then sqliteOk else sqliteIoerrShortRead

theorem readRest_spec {n start : Nat} {pBuf buf : Buf n} {filled : List Byte} {offset : Int}
    {id' : UnixFile} {rc : CInt} {k' : Kernel P F} (hf : k.Opens p id.h f)
    (hoff : offset = start + filled.length)
    (hfilled : filled = readAt (k.data f) start filled.length) (hn : filled.length < n)
    (h : readRest p id pBuf filled offset k = (id', buf, rc, k')) :
    Kernel.Same k k' ∧ k'.data = k.data ∧ (id' = id ∨ ∃ errno, id' = storeLastErrno id errno) ∧
      (Gives (k.data f) start n buf.val rc ∨ rc = sqliteIoerrRead) := by
  rcases hr : seekAndRead p id offset (n - filled.length) [] k with ⟨id₁, got, data, k₁⟩
  obtain ⟨hsame, hdata, m, hm, hbuf, hcase⟩ := seekAndRead_spec hf (by omega) hr
  have hstart : offset.toNat = start + filled.length := by omega
  rw [hstart, List.nil_append] at hbuf
  have hlen : data.length = min m ((k.data f).length - (start + filled.length)) := by
    rw [hbuf, length_readAt]
  have hcopied : ∀ i < filled.length + data.length,
      byte ((pBuf.splice 0 filled).splice filled.length data).val i =
        byte (k.data f) (start + i) := by
    intro i hi
    rw [byte_splice (by omega), byte_splice (by omega)]
    by_cases hfill : i < filled.length
    · rw [if_neg (by omega), if_pos (by omega), hfilled, byte_readAt (by simpa using hfill),
        Nat.sub_zero]
    · rw [if_pos (by omega), hbuf, byte_readAt (by omega),
        show start + filled.length + (i - filled.length) = start + i by omega]
  simp only [readRest, hr] at h
  rcases hcase with ⟨errno, rfl, rfl⟩ | ⟨rfl, rfl, rfl⟩
  · rw [if_neg (by omega), if_pos (by omega)] at h
    cases h
    exact ⟨hsame, hdata, .inr ⟨errno, rfl⟩, .inr rfl⟩
  · by_cases hall : data.length = n - filled.length
    · rw [if_pos (by omega)] at h
      cases h
      exact ⟨hsame, hdata, .inl rfl,
        .inl ⟨fun i hi => hcopied i (by omega), (if_pos (by omega)).symm⟩⟩
    · rw [if_neg (by omega), if_neg (by omega)] at h
      cases h
      refine ⟨hsame, hdata, .inr ⟨0, rfl⟩, .inl ⟨fun i hi => ?_, (if_neg (by omega)).symm⟩⟩
      rw [byte_splice (by simp; omega), List.length_replicate]
      by_cases hcopy : i < filled.length + data.length
      · rw [if_neg (by omega), hcopied i hcopy]
      · rw [if_pos (by omega), byte_of_le (d := k.data f) (by omega)]
        exact byte_replicate

/-- The mapping, if there is one, is of the file and of the length that the handle says. What is
used of it does not go beyond its end or that of the file. -/
structure InFile (p : P) (id : UnixFile) (f : F) (k : Kernel P F) : Prop where
  region : id.pMapRegion ≠ 0 → k.memory.Maps p id.pMapRegion.toNat f id.mmapSizeActual.toNat
  /-- `assert( pFd->mmapSizeActual>=pFd->mmapSize )` -/
  actual : id.pMapRegion ≠ 0 → id.mmapSize.toInt ≤ id.mmapSizeActual.toInt
  unmapped : id.pMapRegion = 0 → id.mmapSize.toInt ≤ 0
  size : id.mmapSize.toInt ≤ (k.data f).length

omit [DecidableEq P] in
theorem InFile.bytesAt (hin : InFile p id f k) {offset : I64} {n : Nat} (hoff : 0 ≤ offset.toInt)
    (hregion : id.pMapRegion ≠ 0) (hn : offset.toInt + n ≤ id.mmapSize.toInt) :
    k.bytesAt p (id.pMapRegion + offset) n = some (readAt (k.data f) offset.toInt.toNat n) := by
  have hmaps := hin.region hregion
  have hactual := hin.actual hregion
  have hsize := hin.size
  have hfits : id.pMapRegion.toNat + id.mmapSizeActual.toNat ≤ 2 ^ 47 := hmaps.fits
  have hle : offset.toInt.toNat = offset.toNat := by
    rw [BitVec.toInt_eq_toNat_cond] at hoff ⊢
    split at hoff <;> omega
  have hto : id.mmapSizeActual.toInt = id.mmapSizeActual.toNat :=
    BitVec.toInt_eq_toNat_of_lt (by omega)
  have hptr : (id.pMapRegion + offset).toNat = id.pMapRegion.toNat + offset.toNat := by
    rw [BitVec.toNat_add, Nat.mod_eq_of_lt (by omega)]
  rw [Kernel.bytesAt, hptr, hle]
  exact hmaps.bytesAt (by omega) (by omega)

/-- A read gives the bytes of the file, however they come to it. -/
theorem unixRead_spec {n : Nat} (pBuf : Buf n) {offset : I64} (hf : k.Opens p id.h f)
    (hmap : InFile p id f k) (hoff : 0 ≤ offset.toInt) (hn : 0 < n) :
    ∃ id' buf rc k', unixRead p id pBuf offset k = some (id', buf, rc, k') ∧
      Kernel.Same k k' ∧ k'.data = k.data ∧
        (id' = id ∨ ∃ errno, id' = storeLastErrno id errno) ∧
        (Gives (k.data f) offset.toInt.toNat n buf.val rc ∨ rc = sqliteIoerrRead) := by
  have hcopy := fun n => hmap.bytesAt (n := n) hoff
  obtain ⟨off, hoff⟩ := Int.eq_ofNat_of_zero_le hoff
  simp only [hoff, Int.toNat_natCast] at hcopy
  rw [unixRead, hoff, Int.toNat_natCast]
  by_cases hlt : (off : Int) < id.mmapSize.toInt
  · have hsize := hmap.size
    have hregion : id.pMapRegion ≠ 0 := fun h0 => absurd (hmap.unmapped h0) (by omega)
    rw [if_pos hlt]
    by_cases hall : (off : Int) + n ≤ id.mmapSize.toInt
    · rw [if_pos hall, hcopy n hregion hall, Option.bind_eq_bind, Option.bind_some]
      have hlen : (readAt (k.data f) off n).length = n := by rw [length_readAt]; omega
      refine ⟨id, _, sqliteOk, k, rfl, .refl k, rfl, .inl rfl, .inl ⟨fun i hi => ?_, ?_⟩⟩
      · rw [byte_splice (by omega), if_pos (by omega), byte_readAt (by omega), Nat.sub_zero]
      · rw [if_pos (by omega)]
    · rw [if_neg hall]
      dsimp only
      rw [hcopy _ hregion (by omega), Option.bind_eq_bind, Option.bind_some]
      have hlen : (readAt (k.data f) off (id.mmapSize.toInt - off).toNat).length =
          (id.mmapSize.toInt - off).toNat := by rw [length_readAt]; omega
      rcases hr : readRest p id pBuf (readAt (k.data f) off (id.mmapSize.toInt - off).toNat)
        (off + (id.mmapSize.toInt - off).toNat) k with ⟨id', buf, rc, k'⟩
      exact ⟨id', buf, rc, k', rfl,
        readRest_spec hf (by rw [hlen]) readAt_length.symm (by omega) hr⟩
  · rw [if_neg hlt]
    rcases hr : readRest p id pBuf [] off k with ⟨id', buf, rc, k'⟩
    have hoff : (off : Int) = off + ([] : List Byte).length := by simp
    exact ⟨id', buf, rc, k', rfl, readRest_spec hf hoff (by simp [readAt]) (by simpa using hn) hr⟩

end Read

/-! ## What a write leaves -/

section Write

variable {id : UnixFile} {k : Kernel P F} {f : F}

/-- Nothing but the bytes at `off` of one file has been written. -/
def Wrote (k k' : Kernel P F) (f : F) (off : Nat) (buf : List Byte) : Prop :=
  Kernel.Same k k' ∧ k'.data = Function.update k.data f (writeAt (k.data f) off buf)

omit [DecidableEq P] in
theorem wrote_nil {k' : Kernel P F} {off : Nat} (hsame : Kernel.Same k k')
    (hdata : k'.data = k.data) : Wrote k k' f off [] :=
  ⟨hsame, by rw [hdata, writeAt_nil, Function.update_eq_self]⟩

omit [DecidableEq P] in
theorem Wrote.trans {k' k'' : Kernel P F} {off : Nat} {s t : List Byte} (h : Wrote k k' f off s)
    (h' : Wrote k' k'' f (off + s.length) t) : Wrote k k'' f off (s ++ t) := by
  refine ⟨h.1.trans h'.1, ?_⟩
  rw [h'.2, h.2, Function.update_self, Function.update_idem, writeAt_append]

theorem seekAndWriteFd_spec {fd : CInt} {iOff : Int} {pBuf : List Byte} {r : Except Errno Nat}
    {k' : Kernel P F} (hf : k.Opens p fd f) (hlen : pBuf.length < 0x20000)
    (h : seekAndWriteFd p fd iOff pBuf k = (r, k')) :
    (∃ errno, r = .error errno ∧ Wrote k k' f iOff.toNat []) ∨
      ∃ n ≤ pBuf.length, r = .ok n ∧ Wrote k k' f iOff.toNat (pBuf.take n) := by
  fun_induction seekAndWriteFd p fd iOff pBuf k with
  | case1 k errno k₁ hseek =>
    obtain ⟨hsame, hdata, -⟩ := Kernel.lseek_keeps hf hseek
    cases h
    exact .inl ⟨errno, rfl, wrote_nil hsame hdata⟩
  | case2 k buf u k₁ hseek k₂ hwrite ih =>
    obtain ⟨hsame₁, hdata₁, hseeked⟩ := Kernel.lseek_keeps hf hseek
    obtain ⟨o, hfd, rfl, hpos⟩ := hseeked rfl
    obtain ⟨hsame₂, hwrote⟩ := Kernel.write_keeps hfd hwrite
    have hdata₂ : k₂.data = k₁.data := by
      rcases hwrote with ⟨e, -, hdata⟩ | ⟨n, -, hn, -⟩
      · exact hdata
      · cases hn
    have hnil : Wrote k k₂ o.file iOff.toNat [] :=
      wrote_nil (hsame₁.trans hsame₂) (hdata₂.trans hdata₁)
    rcases ih ((hsame₁.trans hsame₂).opens hf) h with ⟨errno, hr, hw⟩ | ⟨n, hn, hr, hw⟩
    · exact .inl ⟨errno, hr, hnil.trans hw⟩
    · exact .inr ⟨n, hn, hr, hnil.trans hw⟩
  | case3 k buf u k₁ hseek errno k₂ hwrite hne =>
    obtain ⟨hsame₁, hdata₁, hseeked⟩ := Kernel.lseek_keeps hf hseek
    obtain ⟨o, hfd, rfl, hpos⟩ := hseeked rfl
    obtain ⟨hsame₂, hwrote⟩ := Kernel.write_keeps hfd hwrite
    cases h
    rcases hwrote with ⟨e, -, hdata₂⟩ | ⟨n, -, hn, -⟩
    · exact .inl ⟨errno, rfl, wrote_nil (hsame₁.trans hsame₂) (hdata₂.trans hdata₁)⟩
    · cases hn
  | case4 k buf u k₁ hseek n k₂ hwrite =>
    have hbuf : buf = pBuf := List.take_of_length_le (by rw [Nat.mod_eq_of_lt hlen])
    obtain ⟨hsame₁, hdata₁, hseeked⟩ := Kernel.lseek_keeps hf hseek
    obtain ⟨o, hfd, rfl, hpos⟩ := hseeked rfl
    obtain ⟨hsame₂, hwrote⟩ := Kernel.write_keeps hfd hwrite
    cases h
    rcases hwrote with ⟨e, he, -⟩ | ⟨m, hm, hn, hdata₂⟩
    · cases he
    · cases hn
      rw [hbuf] at hm hdata₂
      rw [hdata₁, hpos] at hdata₂
      exact .inr ⟨n, hm, rfl, hsame₁.trans hsame₂, hdata₂⟩

theorem unixWrite_spec {pBuf : List Byte} {offset : Int} {id' : UnixFile} {rc : CInt}
    {k' : Kernel P F} (hf : k.Opens p id.h f) (hoff : 0 ≤ offset) (hpos : 0 < pBuf.length)
    (hlen : pBuf.length < 0x20000) (h : unixWrite p id pBuf offset k = (id', rc, k')) :
    ∃ n ≤ pBuf.length, Wrote k k' f offset.toNat (pBuf.take n) ∧
      (rc = sqliteOk ∧ n = pBuf.length ∧ id' = id ∨
        n < pBuf.length ∧ (rc = sqliteFull ∧ id' = storeLastErrno id 0 ∨
          rc = sqliteIoerrWrite ∧ ∃ errno ≠ enospc, id' = storeLastErrno id errno)) := by
  fun_induction unixWrite p id pBuf offset k with
  | case1 pBuf offset k errno k₁ hwrite hne =>
    rcases seekAndWriteFd_spec hf hlen hwrite with ⟨e, he, hw⟩ | ⟨n, -, hn, -⟩
    · cases h
      exact ⟨0, Nat.zero_le _, hw, .inr ⟨hpos, .inr ⟨rfl, errno, hne, rfl⟩⟩⟩
    · cases hn
  | case2 pBuf offset k errno k₁ hwrite hne =>
    rcases seekAndWriteFd_spec hf hlen hwrite with ⟨e, he, hw⟩ | ⟨n, -, hn, -⟩
    · cases h
      exact ⟨0, Nat.zero_le _, hw, .inr ⟨hpos, .inl ⟨rfl, rfl⟩⟩⟩
    · cases hn
  | case3 pBuf offset k wrote k₁ hwrite hpart ih =>
    rcases seekAndWriteFd_spec hf hlen hwrite with ⟨e, he, -⟩ | ⟨m, hm, hn, hw⟩
    · cases he
    · cases hn
      have hlength : (pBuf.drop wrote).length = pBuf.length - wrote := List.length_drop
      obtain ⟨n, hn, hw', hcase⟩ := ih (hw.1.opens hf) (by omega) (by omega) (by omega) h
      rw [hlength] at hn hcase
      refine ⟨wrote + n, by omega, ?_, ?_⟩
      · have hoffset : (offset + wrote).toNat = offset.toNat + (pBuf.take wrote).length := by
          rw [List.length_take]
          omega
        rw [hoffset] at hw'
        rw [List.take_add]
        exact hw.trans hw'
      · rcases hcase with ⟨hrc, hall, hid⟩ | ⟨hlt, herr⟩
        · exact .inl ⟨hrc, by omega, hid⟩
        · exact .inr ⟨by omega, herr⟩
  | case4 pBuf offset k wrote k₁ hwrite hpart hlt =>
    rcases seekAndWriteFd_spec hf hlen hwrite with ⟨e, he, -⟩ | ⟨m, hm, hn, hw⟩
    · cases he
    · cases hn
      cases h
      exact ⟨wrote, hm, hw, .inr ⟨hlt, .inl ⟨rfl, rfl⟩⟩⟩
  | case5 pBuf offset k wrote k₁ hwrite hpart hnlt =>
    rcases seekAndWriteFd_spec hf hlen hwrite with ⟨e, he, -⟩ | ⟨m, hm, hn, hw⟩
    · cases he
    · cases hn
      cases h
      exact ⟨wrote, hm, hw, .inl ⟨rfl, by omega, rfl⟩⟩

end Write

end UnixIo

end RemoteVfs
