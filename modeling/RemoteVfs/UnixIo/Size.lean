import RemoteVfs.UnixIo.Transfer

/-!
# How long a file is, and how much of it is mapped

Truncation, the size hint, and the mapping that has to stay within the file.
-/

open CMem Posix FileData

namespace RemoteVfs

open LockCalls (storeLastErrno)

namespace UnixIo

variable {P F : Type} [DecidableEq P] [DecidableEq F] {p : P}

/-! ## What the size becomes -/

section Size

variable {id : UnixFile} {k : Kernel P F} {f : F}

omit [DecidableEq P] in
theorem robustFtruncate_spec {h : CInt} {sz : Int} {r : Except Errno Unit} {k' : Kernel P F}
    (hf : k.Opens p h f) (hr : robustFtruncate p h sz k = (r, k')) :
    Kernel.Same k k' ∧ ((∃ e, r = .error e ∧ k'.data = k.data) ∨ 0 ≤ sz ∧ r = .ok () ∧
      k'.data = Function.update k.data f (resize (k.data f) sz.toNat)) := by
  fun_induction robustFtruncate p h sz k with
  | case1 k k₁ htrunc ih =>
    obtain ⟨hsame, hcase⟩ := Kernel.ftruncate_keeps hf htrunc
    rcases hcase with ⟨e, -, hdata⟩ | ⟨-, hok, -⟩
    · obtain ⟨hsame', hcase⟩ := ih (hsame.opens hf) hr
      rw [hdata] at hcase
      exact ⟨hsame.trans hsame', hcase⟩
    · cases hok
  | case2 k errno k₁ htrunc hne =>
    obtain ⟨hsame, hcase⟩ := Kernel.ftruncate_keeps hf htrunc
    cases hr
    rcases hcase with ⟨e, -, hdata⟩ | ⟨-, hok, -⟩
    · exact ⟨hsame, .inl ⟨errno, rfl, hdata⟩⟩
    · cases hok
  | case3 k u k₁ htrunc =>
    obtain ⟨hsame, hcase⟩ := Kernel.ftruncate_keeps hf htrunc
    cases hr
    rcases hcase with ⟨e, he, -⟩ | ⟨hsz, -, hdata⟩
    · cases he
    · exact ⟨hsame, .inr ⟨hsz, rfl, hdata⟩⟩

theorem roundUp_spec {szChunk : CInt} {n : Int} (hc : 0 < szChunk.toInt) (hn : 0 ≤ n) :
    n ≤ roundUp szChunk n ∧ roundUp szChunk n < n + szChunk.toInt ∧
      szChunk.toInt ∣ roundUp szChunk n := by
  rw [roundUp, Int.tdiv_eq_ediv_of_nonneg (by omega)]
  have hdiv := Int.mul_ediv_add_emod (n + szChunk.toInt - 1) szChunk.toInt
  have hlo := Int.emod_nonneg (n + szChunk.toInt - 1) (ne_of_gt hc)
  have hhi := Int.emod_lt_of_pos (n + szChunk.toInt - 1) hc
  rw [mul_comm] at hdiv
  exact ⟨by omega, by omega, Dvd.intro_left _ rfl⟩

omit [DecidableEq P] in
theorem unixTruncate_spec {nByte : I64} {id' : UnixFile} {rc : CInt} {k' : Kernel P F}
    (hf : k.Opens p id.h f) (h : unixTruncate p id nByte k = (id', rc, k')) :
    Kernel.Same k k' ∧
      ((∃ errno, rc = sqliteIoerrTruncate ∧ id' = storeLastErrno id errno ∧ k'.data = k.data) ∨
        ∃ n : Nat, (n : Int) = (if 0 < id.szChunk.toInt then roundUp id.szChunk nByte.toInt
            else nByte.toInt) ∧ rc = sqliteOk ∧
          k'.data = Function.update k.data f (resize (k.data f) n) ∧
          id' = if (n : Int) < id.mmapSize.toInt then { id with mmapSize := BitVec.ofInt 64 n }
            else id) := by
  simp only [unixTruncate] at h
  rcases hr : robustFtruncate p id.h
    (if 0 < id.szChunk.toInt then roundUp id.szChunk nByte.toInt else nByte.toInt) k with ⟨r, k₁⟩
  obtain ⟨hsame, hcase⟩ := robustFtruncate_spec hf hr
  rw [hr] at h
  rcases hcase with ⟨e, rfl, hdata⟩ | ⟨hsz, rfl, hdata⟩
  · cases h
    exact ⟨hsame, .inl ⟨e, rfl, rfl, hdata⟩⟩
  · obtain ⟨n, hn⟩ := Int.eq_ofNat_of_zero_le hsz
    rw [hn] at h hdata
    cases h
    exact ⟨hsame, .inr ⟨n, hn.symm, rfl, hdata, rfl⟩⟩

omit [DecidableEq P] in
theorem Wrote.stay {k' : Kernel P F} {off : Nat} (hw : Wrote k k' f off []) :
    k'.data = Function.update k.data f (resize (k.data f) (k.data f).length) := by
  rw [hw.2, writeAt_nil, resize_length]

theorem writeBlocks_spec {nSize nBlk : Nat} {hBlk : 0 < nBlk} {iWrite : Nat} {id' : UnixFile}
    {done : Bool} {k' : Kernel P F} (hf : k.Opens p id.h f)
    (hat : (k.data f).length < nSize ∧ (k.data f).length ≤ iWrite ∧
        iWrite ≤ (k.data f).length + nBlk - 1 ∨
      (k.data f).length = nSize ∧ iWrite = nSize + nBlk - 1)
    (h : writeBlocks p id nSize nBlk hBlk iWrite k = (id', done, k')) :
    Kernel.Same k k' ∧ ∃ n ≤ nSize, (k.data f).length ≤ n ∧ (done = true → n = nSize) ∧
      k'.data = Function.update k.data f (resize (k.data f) n) ∧
      (id' = id ∨ ∃ errno, id' = storeLastErrno id errno) := by
  have hsmall : ([0] : List Byte).length < 0x20000 := by decide
  fun_induction writeBlocks p id nSize nBlk hBlk iWrite k with
  | case1 iWrite k hlt iWrite' errno k₁ hwrite =>
    rcases seekAndWriteFd_spec hf hsmall hwrite with ⟨e, -, hw⟩ | ⟨n, -, hn, -⟩
    · cases h
      exact ⟨hw.1, _, by omega, le_rfl, nofun, hw.stay, .inr ⟨errno, rfl⟩⟩
    · cases hn
  | case2 iWrite k hlt iWrite' wrote k₁ hwrite hne =>
    rcases seekAndWriteFd_spec hf hsmall hwrite with ⟨e, he, -⟩ | ⟨n, hle, hn, hw⟩
    · cases he
    · cases hn
      cases h
      have h0 : wrote = 0 := by
        rw [List.length_singleton] at hle
        omega
      rw [h0, List.take_zero] at hw
      exact ⟨hw.1, _, by omega, le_rfl, nofun, hw.stay, .inl rfl⟩
  | case3 iWrite k hlt iWrite' wrote k₁ hwrite hone ih =>
    obtain rfl : wrote = 1 := not_not.mp hone
    have hin : (k.data f).length ≤ iWrite' ∧ iWrite' < nSize := by
      dsimp only [iWrite']
      split <;> omega
    rcases seekAndWriteFd_spec hf hsmall hwrite with ⟨e, he, -⟩ | ⟨n, -, hn, hw⟩
    · cases he
    · cases hn
      have hdata : k₁.data f = resize (k.data f) (iWrite' + 1) := by
        rw [hw.2, Function.update_self, Int.toNat_natCast]
        exact writeAt_zero hin.1
      have hlen : (k₁.data f).length = iWrite' + 1 := by rw [hdata, length_resize]
      obtain ⟨hsame, n, hn, hle, hdone, hdata', hid⟩ := ih (hw.1.opens hf) (by omega) h
      refine ⟨hw.1.trans hsame, n, hn, by omega, hdone, ?_, hid⟩
      rw [hdata', hdata, resize_resize (by omega), hw.2, Function.update_idem]
  | case4 iWrite k hge =>
    cases h
    exact ⟨.refl _, _, by omega, le_rfl, fun _ => by omega, by
      rw [resize_length, Function.update_eq_self], .inl rfl⟩

/-- The file has become longer by zeros, or shorter. -/
def Resized (k k' : Kernel P F) (f : F) (n : Nat) : Prop :=
  Kernel.Kept k k' ∧ k'.data = Function.update k.data f (resize (k.data f) n)

omit [DecidableEq P] in
theorem resized_self {k' : Kernel P F} (hkept : Kernel.Kept k k') (hdata : k'.data = k.data) :
    Resized k k' f (k.data f).length :=
  ⟨hkept, by rw [hdata, resize_length, Function.update_eq_self]⟩

theorem enlarge_spec {nByte : Int} {id' : UnixFile} {rc : CInt} {k' : Kernel P F}
    (hf : k.Opens p id.h f) (h : enlarge p id nByte k = (id', rc, k')) :
    k'.memory = k.memory ∧ (id' = id ∨ ∃ errno, id' = storeLastErrno id errno) ∧
      ∃ n, Resized k k' f n ∧ (k.data f).length ≤ n ∧
        (rc = sqliteOk → (n : Int) = max ((k.data f).length : Int) (roundUp id.szChunk nByte)) := by
  rw [enlarge] at h
  rcases hstat : k.fstat p id.h with ⟨r, k₁⟩
  obtain ⟨hsame, hdata, hopen⟩ := Kernel.fstat_keeps p id.h k hstat
  rw [hstat] at h
  cases r with
  | error errno =>
    cases h
    exact ⟨hsame.memory, .inl rfl, _, resized_self hsame.toKept hdata, le_rfl,
      fun h => absurd h (by decide)⟩
  | ok f' =>
    obtain rfl := hf.unique (hopen f' rfl)
    dsimp only at h
    split at h
    · next hlt =>
      rcases hw : writeBlocks p id (roundUp id.szChunk nByte).toNat k₁.blksize k₁.blksize_pos
        ((k₁.data f).length / k₁.blksize * k₁.blksize + k₁.blksize - 1) k₁ with ⟨id₁, done, k₂⟩
      have hdiv := Nat.div_add_mod (k₁.data f).length k₁.blksize
      have hmod := Nat.mod_lt (k₁.data f).length k₁.blksize_pos
      rw [mul_comm] at hdiv
      obtain ⟨hsame₂, n, hn, hle, hdone, hdata₂, hid⟩ :=
        writeBlocks_spec (hsame.opens hf) (.inl (by omega)) hw
      rw [hw] at h
      cases h
      rw [hdata] at hle hdata₂ hlt
      refine ⟨hsame₂.memory.trans hsame.memory, hid, n,
        ⟨hsame.toKept.trans hsame₂.toKept, hdata₂⟩, hle, fun hrc => ?_⟩
      have hall := hdone (by
        by_contra hnot
        rw [if_neg hnot] at hrc
        exact absurd hrc (by decide))
      omega
    · next hge =>
      cases h
      rw [hdata] at hge
      exact ⟨hsame.memory, .inl rfl, _, resized_self hsame.toKept hdata, le_rfl, fun _ => by omega⟩

end Size

/-! ## What a mapping is of -/

section Mapping

variable {id : UnixFile} {k : Kernel P F} {f : F}

omit [DecidableEq F] in
theorem maps_at {t : PageTable P F} {v n : Nat} (hn : 0 < n) (hv : 0 < v)
    (hfits : v * t.pageSize + n ≤ PageTable.addressMax) :
    BitVec.ofNat 64 (v * t.pageSize) ≠ mapFailed ∧ BitVec.ofNat 64 (v * t.pageSize) ≠ 0 ∧
      (t.map p v n f 0).Maps p (BitVec.ofNat 64 (v * t.pageSize)).toNat f n := by
  have hmax : PageTable.addressMax = 2 ^ 47 := rfl
  have hpos : 0 < v * t.pageSize := Nat.mul_pos hv t.pageSize_pos
  have hto : (BitVec.ofNat 64 (v * t.pageSize)).toNat = v * t.pageSize := by
    rw [BitVec.toNat_ofNat, Nat.mod_eq_of_lt (by omega)]
  refine ⟨fun h => ?_, fun h => ?_, ?_⟩
  · rw [h] at hto
    have hfailed : mapFailed.toNat = 2 ^ 64 - 1 := rfl
    omega
  · rw [h] at hto
    have hzero : (0 : Ptr).toNat = 0 := rfl
    omega
  · rw [hto]
    exact PageTable.maps_map hn hfits

/-- The first `n` bytes of the file are mapped, unless the call has failed. -/
structure Gets (p : P) (f : F) (n : Nat) (k : Kernel P F) (pNew : Ptr) (k' : Kernel P F) :
    Prop where
  kept : Kernel.Kept k k'
  data : k'.data = k.data
  maps : pNew ≠ mapFailed → pNew ≠ 0 ∧ k'.memory.Maps p pNew.toNat f n

omit [DecidableEq F] in
theorem mmap_gets (hf : k.Opens p id.h f) {n : Nat} {pNew : Ptr} {k' : Kernel P F}
    (h : k.mmap p id.h n = (pNew, k')) : Gets p f n k pNew k' := by
  rcases Kernel.mmap_cases p id.h k n with ⟨places, hm⟩ | ⟨v, places, o, hfd, hn, hv, hm⟩
  · cases hm.symm.trans h
    exact ⟨⟨fun _ _ => rfl, rfl, rfl, rfl⟩, rfl, fun hne => absurd rfl hne⟩
  · cases hm.symm.trans h
    obtain ⟨o', hfd', rfl⟩ := hf
    obtain rfl := Option.some.inj (hfd.symm.trans hfd')
    exact ⟨⟨fun _ _ => rfl, rfl, rfl, rfl⟩, rfl, fun _ => (maps_at hn hv.1 hv.2.1).2⟩

/-- At an address there is the first page of the file, or nothing. -/
def StartsAt (p : P) (a : Ptr) (f : F) (k : Kernel P F) : Prop :=
  ∀ g, k.memory.page p (a.toNat / k.memory.pageSize) = some g → g = (f, 0)

omit [DecidableEq F] in
theorem StartsAt.munmap {a : Ptr} (hstart : StartsAt p a f k) (b : Ptr) (n : Nat) :
    StartsAt p a f (k.munmap p b n) := by
  intro g hg
  obtain ⟨-, -, hsize, hpage⟩ := Kernel.munmap_keeps p k b n
  rw [hsize] at hg
  rcases hpage (a.toNat / k.memory.pageSize) with hsame | hnone
  · exact hstart g (hsame ▸ hg)
  · rw [hnone] at hg
    cases hg

theorem mremap_gets {a : Ptr} (hstart : StartsAt p a f k) {old n : Nat} {pNew : Ptr}
    {k' : Kernel P F} (h : k.mremap p a old n = (pNew, k')) :
    Gets p f n k pNew k' ∧ pNew ≠ 0 := by
  rcases Kernel.mremap_cases p k a old n with ⟨places, hm⟩ | ⟨v, places, g, j, hg, hn, hv, hm⟩
  · cases hm.symm.trans h
    exact ⟨⟨⟨fun _ _ => rfl, rfl, rfl, rfl⟩, rfl, fun hne => absurd rfl hne⟩, by decide⟩
  · cases hm.symm.trans h
    cases hstart _ hg
    have hmaps := maps_at (p := p) (f := f) hn hv.1 hv.2.1
    exact ⟨⟨⟨fun _ _ => rfl, rfl, rfl, rfl⟩, rfl, fun _ => hmaps.2⟩, hmaps.2.1⟩

/-- What is mapped in the end is the file, in the length that was asked for. -/
theorem remapRegion_gets {nNew : I64} {pNew : Ptr} {k' : Kernel P F} (hf : k.Opens p id.h f)
    (hregion : id.pMapRegion ≠ 0 →
      k.memory.Maps p id.pMapRegion.toNat f id.mmapSizeActual.toNat)
    (h : (mmapCalls p).remapRegion id nNew k = (pNew, k')) :
    Gets p f nNew.toNat k pNew k' := by
  rw [MmapCalls.remapRegion] at h
  dsimp only [mmapCalls] at h
  by_cases h0 : id.pMapRegion = 0
  · rw [if_neg (not_not.mpr h0)] at h
    exact mmap_gets hf ((if_pos rfl).symm.trans h)
  · rw [if_pos h0] at h
    have hstart : StartsAt p id.pMapRegion f k := fun g hg =>
      (Option.some.inj ((hregion h0).first.symm.trans hg)).symm
    -- The pages that cannot be used again have gone, or they are still there.
    obtain ⟨k₁, hk₁, hkept, hdata, hstart₁⟩ : ∃ k₁, (if id.mmapSize ≠ id.mmapSizeActual then
          k.munmap p (id.pMapRegion + id.mmapSize) (id.mmapSizeActual - id.mmapSize).toNat
        else k) = k₁ ∧ Kernel.Kept k k₁ ∧ k₁.data = k.data ∧ StartsAt p id.pMapRegion f k₁ := by
      refine ⟨_, rfl, ?_⟩
      split
      · obtain ⟨hkept, hdata, -⟩ := Kernel.munmap_keeps p k (id.pMapRegion + id.mmapSize)
          (id.mmapSizeActual - id.mmapSize).toNat
        exact ⟨hkept, hdata, hstart.munmap _ _⟩
      · exact ⟨.refl k, rfl, hstart⟩
    rw [hk₁] at h
    rcases hm : k₁.mremap p id.pMapRegion id.mmapSize.toNat nNew.toNat with ⟨pNew₂, k₂⟩
    obtain ⟨hgets, hne⟩ := mremap_gets hstart₁ hm
    rw [hm] at h
    dsimp only at h
    rw [if_neg hne] at h
    cases h
    split
    · next hfail =>
      obtain ⟨hkept₂, hdata₂, -⟩ := Kernel.munmap_keeps p k₂ id.pMapRegion id.mmapSize.toNat
      exact ⟨(hkept.trans hgets.kept).trans hkept₂, (hdata₂.trans hgets.data).trans hdata,
        fun hne' => absurd (hfail.resolve_right hne) hne'⟩
    · exact ⟨hkept.trans hgets.kept, hgets.data.trans hdata, hgets.maps⟩

/-- A file keeps all but what says where it is mapped. -/
def Remapped (id id' : UnixFile) : Prop :=
  ∃ max region size actual, id' = { id with
    mmapSizeMax := max, pMapRegion := region, mmapSize := size, mmapSizeActual := actual }

omit [DecidableEq P] [DecidableEq F] in
theorem inFile_unmapped (hregion : id.pMapRegion = 0) (hsize : id.mmapSize = 0) :
    InFile p id f k where
  region h0 := absurd hregion h0
  actual h0 := absurd hregion h0
  unmapped _ := by rw [hsize]; exact le_rfl
  size := by rw [hsize]; exact Int.natCast_nonneg _

theorem unixRemapfile_spec {nNew : I64} {id' : UnixFile} {k' : Kernel P F}
    (hf : k.Opens p id.h f) (hregion : id.pMapRegion ≠ 0 →
      k.memory.Maps p id.pMapRegion.toNat f id.mmapSizeActual.toNat)
    (hnew : nNew.toInt ≤ (k.data f).length)
    (h : (mmapCalls p).unixRemapfile id nNew k = (id', k')) :
    Kernel.Kept k k' ∧ k'.data = k.data ∧ Remapped id id' ∧ InFile p id' f k' := by
  rcases hr : (mmapCalls p).remapRegion id nNew k with ⟨pNew, k₁⟩
  obtain ⟨hkept, hdata, hmap⟩ := remapRegion_gets hf hregion hr
  rw [MmapCalls.unixRemapfile, hr] at h
  dsimp only at h
  by_cases hfail : pNew = mapFailed
  · rw [if_pos hfail] at h
    cases h
    exact ⟨hkept, hdata, ⟨_, _, _, _, rfl⟩, inFile_unmapped rfl rfl⟩
  · rw [if_neg hfail] at h
    cases h
    obtain ⟨h0, hmap⟩ := hmap hfail
    exact ⟨hkept, hdata, ⟨_, _, _, _, rfl⟩, fun _ => hmap, fun _ => le_rfl, fun h => absurd h h0,
      by rwa [hdata]⟩

theorem toInt_ofNat_le (n : Nat) : (BitVec.ofNat 64 n).toInt ≤ n := by
  have hmod := Nat.mod_le n (2 ^ 64)
  rw [BitVec.toInt_eq_toNat_cond, BitVec.toNat_ofNat]
  split <;> omega

theorem unixMapfile_spec {nMap : I64} {rc : CInt} {id' : UnixFile} {k' : Kernel P F}
    (hf : k.Opens p id.h f) (hin : InFile p id f k) (hmap : nMap.toInt ≤ (k.data f).length)
    (h : (mmapCalls p).unixMapfile id nMap k = (rc, id', k')) :
    Kernel.Kept k k' ∧ k'.data = k.data ∧ Remapped id id' ∧ InFile p id' f k' := by
  have hsame : Remapped id id := ⟨_, _, _, _, rfl⟩
  rw [MmapCalls.unixMapfile] at h
  by_cases hfetched : 0 < id.nFetchOut.toInt
  · rw [if_pos hfetched] at h
    cases h
    exact ⟨.refl k, rfl, hsame, hin⟩
  · rw [if_neg hfetched] at h
    rcases hk₁ : (if nMap.toInt < 0 then (mmapCalls p).osFstat id.h k else (some nMap, k))
      with ⟨size, k₁⟩
    rw [hk₁] at h
    -- The size is that of the file, or what is asked for.
    have hsize : Kernel.Same k k₁ ∧ k₁.data = k.data ∧
        ∀ n, size = some n → n.toInt ≤ (k.data f).length := by
      split at hk₁
      · rcases hstat : k.fstat p id.h with ⟨r, k₂⟩
        obtain ⟨hsame, hdata, hopen⟩ := Kernel.fstat_keeps p id.h k hstat
        dsimp only [mmapCalls] at hk₁
        rw [hstat] at hk₁
        cases r with
        | error e =>
          cases hk₁
          exact ⟨hsame, hdata, nofun⟩
        | ok f' =>
          obtain rfl := hf.unique (hopen f' rfl)
          cases hk₁
          refine ⟨hsame, hdata, fun n hn => ?_⟩
          rw [← Option.some.inj hn, hdata]
          exact toInt_ofNat_le _
      · cases hk₁
        exact ⟨.refl k, rfl, fun n hn => Option.some.inj hn ▸ hmap⟩
    obtain ⟨hkept, hdata, hle⟩ := hsize
    have hin₁ : InFile p id f k₁ :=
      ⟨fun h0 => by rw [hkept.memory]; exact hin.region h0, hin.actual, hin.unmapped,
        by rw [hdata]; exact hin.size⟩
    cases size with
    | none =>
      cases h
      exact ⟨hkept.toKept, hdata, hsame, hin₁⟩
    | some n =>
      have hn := hle n rfl
      dsimp only at h
      by_cases hne : (if id.mmapSizeMax.toInt < n.toInt then id.mmapSizeMax else n) ≠ id.mmapSize
      · rw [if_pos hne] at h
        rcases hr : (mmapCalls p).unixRemapfile id
          (if id.mmapSizeMax.toInt < n.toInt then id.mmapSizeMax else n) k₁ with ⟨id₁, k₂⟩
        rw [hr] at h
        cases h
        obtain ⟨hkept₂, hdata₂, hremap, hin₂⟩ := unixRemapfile_spec (hkept.opens hf) hin₁.region
          (by rw [hdata]; split <;> omega) hr
        exact ⟨hkept.toKept.trans hkept₂, hdata₂.trans hdata, hremap, hin₂⟩
      · rw [if_neg hne] at h
        cases h
        exact ⟨hkept.toKept, hdata, hsame, hin₁⟩

theorem unixUnmapfile_spec {id' : UnixFile} {k' : Kernel P F} (hin : InFile p id f k)
    (h : (mmapCalls p).unixUnmapfile id k = (id', k')) :
    Kernel.Kept k k' ∧ k'.data = k.data ∧ Remapped id id' ∧ InFile p id' f k' := by
  rw [MmapCalls.unixUnmapfile] at h
  split at h
  · cases h
    obtain ⟨hkept, hdata, -⟩ := Kernel.munmap_keeps p k id.pMapRegion id.mmapSizeActual.toNat
    exact ⟨hkept, hdata, ⟨_, _, _, _, rfl⟩, inFile_unmapped rfl rfl⟩
  · cases h
    exact ⟨.refl k, rfl, ⟨_, _, _, _, rfl⟩, hin⟩

omit [DecidableEq P] [DecidableEq F] in
theorem InFile.of_le {id' : UnixFile} {k' : Kernel P F} (hin : InFile p id f k)
    (hregion : id'.pMapRegion = id.pMapRegion) (hsize : id'.mmapSize = id.mmapSize)
    (hactual : id'.mmapSizeActual = id.mmapSizeActual) (hmemory : k'.memory = k.memory)
    (hlen : id.mmapSize.toInt ≤ (k.data f).length → id.mmapSize.toInt ≤ (k'.data f).length) :
    InFile p id' f k' where
  region h0 := by rw [hregion, hmemory, hactual]; exact hin.region (hregion ▸ h0)
  actual h0 := by rw [hsize, hactual]; exact hin.actual (hregion ▸ h0)
  unmapped h0 := by rw [hsize]; exact hin.unmapped (hregion ▸ h0)
  size := by rw [hsize]; exact hlen hin.size

end Mapping

/-! ## The size hint -/

section Hint

variable {id : UnixFile} {k : Kernel P F} {f : F}

/-- No byte before the hint is lost. With a chunk size the file does not shrink, and it
ends with a whole chunk when the result is OK. -/
theorem fcntlSizeHint_spec {nByte : I64} {id' : UnixFile} {rc : CInt} {k' : Kernel P F}
    (hf : k.Opens p id.h f) (hin : InFile p id f k)
    (h : fcntlSizeHint p id nByte k = (id', rc, k')) :
    ∃ n, Resized k k' f n ∧ min ((k.data f).length : Int) nByte.toInt ≤ n ∧
      (0 < id.szChunk.toInt → (k.data f).length ≤ n ∧
        (rc = sqliteOk →
          (n : Int) = max ((k.data f).length : Int) (roundUp id.szChunk nByte.toInt))) ∧
      id'.h = id.h ∧ id'.szChunk = id.szChunk ∧ InFile p id' f k' := by
  rw [fcntlSizeHint] at h
  rcases h₁ : (if 0 < id.szChunk.toInt then enlarge p id nByte.toInt k else (id, sqliteOk, k))
    with ⟨id₁, rc₁, k₁⟩
  rw [h₁] at h
  obtain ⟨hmemory, hid, n, hsize, hle, hchunk, hplain⟩ :
      k₁.memory = k.memory ∧ (id₁ = id ∨ ∃ errno, id₁ = storeLastErrno id errno) ∧
      ∃ n, Resized k k₁ f n ∧ (k.data f).length ≤ n ∧ (0 < id.szChunk.toInt → rc₁ = sqliteOk →
          (n : Int) = max ((k.data f).length : Int) (roundUp id.szChunk nByte.toInt)) ∧
        (¬ 0 < id.szChunk.toInt → n = (k.data f).length ∧ k₁ = k) := by
    split at h₁
    · next hc =>
      obtain ⟨hmemory, hid, n, hsize, hle, hok⟩ := enlarge_spec hf h₁
      exact ⟨hmemory, hid, n, hsize, hle, fun _ => hok, fun h => absurd hc h⟩
    · next hc =>
      cases h₁
      exact ⟨rfl, .inl rfl, _, resized_self (.refl k) rfl, le_rfl, fun h => absurd h hc,
        fun _ => ⟨rfl, rfl⟩⟩
  have hfields : id₁.pMapRegion = id.pMapRegion ∧ id₁.mmapSize = id.mmapSize ∧
      id₁.mmapSizeActual = id.mmapSizeActual ∧ id₁.h = id.h ∧ id₁.szChunk = id.szChunk ∧
      id₁.mmapSizeMax = id.mmapSizeMax := by
    rcases hid with rfl | ⟨errno, rfl⟩ <;> exact ⟨rfl, rfl, rfl, rfl, rfl, rfl⟩
  obtain ⟨hregion, hmmap, hactual, hh, hszChunk, hmax⟩ := hfields
  have hlen : (k₁.data f).length = n := by rw [hsize.2, Function.update_self, length_resize]
  have hin₁ : InFile p id₁ f k₁ := hin.of_le hregion hmmap hactual hmemory fun _ => by
    have := hin.size
    omega
  have hf₁ : k₁.Opens p id₁.h f := hh ▸ hsize.1.opens hf
  dsimp only at h
  rw [hmax, hmmap, hszChunk] at h
  by_cases hrc : rc₁ ≠ sqliteOk
  · rw [if_pos hrc] at h
    cases h
    exact ⟨n, hsize, by omega, fun hc => ⟨hle, hchunk hc⟩, hh, hszChunk, hin₁⟩
  · rw [if_neg hrc] at h
    have hrc := not_not.mp hrc
    by_cases hmap : 0 < id.mmapSizeMax.toInt ∧ id.mmapSize.toInt < nByte.toInt
    · rw [if_pos hmap] at h
      by_cases hc : 0 < id.szChunk.toInt
      · rw [if_neg (not_le.mpr hc)] at h
        rcases hm : (mmapCalls p).unixMapfile id₁ nByte k₁ with ⟨rc₂, id₂, k₂⟩
        dsimp only at h
        rw [hm] at h
        cases h
        have hall := hchunk hc hrc
        have hnByte : nByte.toInt ≤ (k₁.data f).length := by
          rcases lt_or_ge nByte.toInt 0 with hneg | hpos
          · omega
          · have := (roundUp_spec hc hpos).1
            omega
        obtain ⟨hkept, hdata, ⟨_, _, _, _, rfl⟩, hin₂⟩ := unixMapfile_spec hf₁ hin₁ hnByte hm
        exact ⟨n, ⟨hsize.1.trans hkept, hdata.trans hsize.2⟩, by omega,
          fun _ => ⟨hle, fun _ => hall⟩, hh, hszChunk, hin₂⟩
      · rw [if_pos (not_lt.mp hc)] at h
        obtain ⟨rfl, rfl⟩ := hplain hc
        rcases ht : robustFtruncate p id₁.h nByte.toInt k₁ with ⟨r, k₂⟩
        rw [ht] at h
        obtain ⟨hsame, hcase⟩ := robustFtruncate_spec hf₁ ht
        rcases hcase with ⟨e, rfl, hdata⟩ | ⟨hpos, rfl, hdata⟩
        · cases h
          exact ⟨_, resized_self hsame.toKept hdata, by omega, fun h => absurd h hc, hh,
            hszChunk, hin₁.of_le rfl rfl rfl hsame.memory fun h => by rwa [hdata]⟩
        · have hnew : (k₂.data f).length = nByte.toInt.toNat := by
            rw [hdata, Function.update_self, length_resize]
          have hin₂ : InFile p id₁ f k₂ := hin₁.of_le rfl rfl rfl hsame.memory fun _ => by
            rw [hmmap]
            omega
          rcases hm : (mmapCalls p).unixMapfile id₁ nByte k₂ with ⟨rc₂, id₂, k₃⟩
          dsimp only at h
          rw [hm] at h
          cases h
          obtain ⟨hkept, hdata₃, ⟨_, _, _, _, rfl⟩, hin₃⟩ :=
            unixMapfile_spec (hsame.opens hf₁) hin₂ (by omega) hm
          exact ⟨_, ⟨hsame.toKept.trans hkept, hdata₃.trans hdata⟩, by omega,
            fun h => absurd h hc, hh, hszChunk, hin₃⟩
    · rw [if_neg hmap] at h
      cases h
      exact ⟨n, hsize, by omega, fun hc => ⟨hle, fun _ => hchunk hc hrc⟩, hh, hszChunk, hin₁⟩

end Hint

end UnixIo

end RemoteVfs
