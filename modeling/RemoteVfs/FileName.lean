import RemoteVfs.Limits

/-!
# File names with URI parameters

What SQLite gives to `xOpen` is more than one string: behind the NUL of the name
follow the keys and values of a URI, each with its NUL, and an empty key ends the
list. For a temporary file it is NULL.
-/

open CMem

namespace RemoteVfs

structure FileName where
  name : List Byte
  params : List (List Byte × List Byte)
  name_ne : 0 ∉ name
  key_ne : ∀ kv ∈ params, kv.1 ≠ [] ∧ 0 ∉ kv.1
  value_ne : ∀ kv ∈ params, 0 ∉ kv.2

namespace FileName

def paramBytes (params : List (List Byte × List Byte)) : List Byte :=
  params.flatMap fun kv => kv.1 ++ 0 :: (kv.2 ++ [0])

/-- The object in memory. -/
def bytes (f : FileName) : List Byte := f.name ++ 0 :: (paramBytes f.params ++ [0])

end FileName

/-- The loop of `sqlite3_uri_parameter`, on the memory from the first key on: the value
behind the pointer it returns, if that is not NULL. `none` leaves the object. -/
def uriLoop (zParam : List Byte) : Nat → List Byte → Option (Option (List Byte))
  | 0, _ => none
  | _ + 1, [] => none
  | fuel + 1, b :: mem =>
    if b = 0 then some none
    else do
      let key ← cstr (b :: mem)
      let mem := (b :: mem).drop (key.length + 1)
      let value ← cstr mem
      if key = zParam then return some value
      uriLoop zParam fuel (mem.drop (value.length + 1))

/-- `sqlite3_uri_parameter` -/
def sqlite3UriParameter (zFilename : Option (List Byte)) (zParam : List Byte) :
    Option (Option (List Byte)) :=
  match zFilename with
  | none => some none
  | some mem => do
    let name ← cstr mem
    uriLoop zParam mem.length (mem.drop (name.length + 1))

theorem drop_cstr (p rest : List Byte) : (p ++ 0 :: rest).drop (p.length + 1) = rest := by
  rw [← List.singleton_append, ← List.append_assoc]
  exact List.drop_left' (by simp)

theorem uriLoop_paramBytes {params : List (List Byte × List Byte)}
    (hkey : ∀ kv ∈ params, kv.1 ≠ [] ∧ 0 ∉ kv.1) (hvalue : ∀ kv ∈ params, 0 ∉ kv.2)
    (zParam rest : List Byte) {fuel : Nat} (hfuel : params.length < fuel) :
    uriLoop zParam fuel (FileName.paramBytes params ++ 0 :: rest) =
      some (params.lookup zParam) := by
  induction params generalizing fuel with
  | nil =>
    obtain ⟨fuel, rfl⟩ : ∃ k, fuel = k + 1 := ⟨fuel - 1, by omega⟩
    rfl
  | cons kv params ih =>
    obtain ⟨fuel, rfl⟩ : ∃ k, fuel = k + 1 := ⟨fuel - 1, by simp at hfuel; omega⟩
    obtain ⟨hne, h0⟩ := hkey kv (List.mem_cons_self ..)
    have hv0 := hvalue kv (List.mem_cons_self ..)
    have hrest : uriLoop zParam fuel (FileName.paramBytes params ++ 0 :: rest) =
        some (params.lookup zParam) :=
      ih (fun kv h => hkey kv (.tail _ h)) (fun kv h => hvalue kv (.tail _ h))
        (by simp at hfuel; omega)
    have hmem : FileName.paramBytes (kv :: params) ++ 0 :: rest =
        kv.1 ++ 0 :: (kv.2 ++ 0 :: (FileName.paramBytes params ++ 0 :: rest)) := by
      simp [FileName.paramBytes]
    obtain ⟨b, key, hb⟩ := List.exists_cons_of_ne_nil hne
    have hb0 : b ≠ 0 := fun h => h0 (by rw [hb, h]; exact List.mem_cons_self ..)
    rw [hmem, hb, List.cons_append, uriLoop, if_neg hb0, ← List.cons_append, ← hb]
    simp only [cstr_append _ _ h0, Option.bind_eq_bind, Option.bind_some, drop_cstr,
      cstr_append _ _ hv0, hrest]
    obtain ⟨key, value⟩ := kv
    rw [List.lookup_cons]
    by_cases heq : key = zParam
    · simp [heq]
    · have hne : (zParam == key) = false := by simpa using Ne.symm heq
      rw [if_neg heq, hne]

theorem uriLoop_eq_none {zParam mem : List Byte} (h : 0 ∉ mem) (fuel : Nat) :
    uriLoop zParam fuel mem = none := by
  cases fuel with
  | zero => rfl
  | succ fuel =>
    cases mem with
    | nil => rfl
    | cons b mem =>
      have hb : b ≠ 0 := fun h0 => h (h0 ▸ List.mem_cons_self ..)
      rw [uriLoop, if_neg hb, cstr_eq_none h]
      rfl

namespace FileName

theorem length_le_paramBytes (params : List (List Byte × List Byte)) :
    params.length ≤ (paramBytes params).length := by
  induction params with
  | nil => exact le_rfl
  | cons kv params ih =>
    have hcons : paramBytes (kv :: params) = kv.1 ++ 0 :: (kv.2 ++ [0]) ++ paramBytes params := rfl
    rw [hcons]
    simp only [List.length_append, List.length_cons]
    omega

theorem uriParameter_bytes (f : FileName) (zParam : List Byte) :
    sqlite3UriParameter (some f.bytes) zParam = some (f.params.lookup zParam) := by
  have hfuel : f.params.length < f.bytes.length := by
    have := length_le_paramBytes f.params
    simp only [bytes, List.length_append, List.length_cons]
    omega
  rw [sqlite3UriParameter, bytes, cstr_append _ _ f.name_ne, Option.bind_eq_bind,
    Option.bind_some, drop_cstr]
  exact uriLoop_paramBytes f.key_ne f.value_ne zParam [] hfuel

end FileName

/-! ## Across the wire -/

section Wire

variable {n : Nat} (A : Addresses) (garbage : Nat → Byte)

/-- The `zPath` that `WrapOpen` gives to `xOpen`: always its local array. -/
def openZPath (argIn : Buf n) : Option (Option (List Byte)) :=
  (unixOpenConvertCharToArgIn argIn (Buf.uninit garbage 512)).map (some ·.1.val)

/-- The server's `xOpen` gets the same name, NULL or not, and finds the same parameters
in it, whatever the stack held. -/
def NameReaches (z : Option FileName) (pFile : UnixFile) (flags : CInt)
    (pOutFlags : Option CInt) : Prop :=
  ∀ garbage, ∃ argIn zPath,
    (remoteOpen A (z.map (·.bytes)) pFile flags pOutFlags).argInChar = some argIn ∧
    openZPath garbage argIn = some zPath ∧ (zPath = none ↔ z = none) ∧
    zPath.bind cstr = z.map (·.name) ∧
    ∀ zParam, sqlite3UriParameter zPath zParam =
      sqlite3UriParameter (z.map (·.bytes)) zParam

variable {A garbage}

/-- What the server's array holds behind the name is what the stack held. -/
theorem openZPath_eq {f : FileName} (hname : f.name.length ≤ 511) {pFile : UnixFile}
    {flags : CInt} {pOutFlags : Option CInt} {argIn : Buf (Op.argInSize .open_)}
    (hargIn : (remoteOpen A (some f.bytes) pFile flags pOutFlags).argInChar = some argIn) :
    openZPath garbage argIn =
      some (some (f.name ++ 0 :: (Buf.uninit garbage 512).val.drop (f.name.length + 1))) := by
  have hz : cstr f.bytes = some f.name := cstr_append _ _ f.name_ne
  have key := unixOpen_request hz hname pFile flags pOutFlags (Buf.zeros (Op.argInSize .open_))
    (by decide) (Buf.uninit garbage 512)
  obtain ⟨argIn', hargIn', hdec⟩ := Option.bind_eq_some_iff.mp key
  obtain rfl := Option.some.inj (hargIn'.symm.trans hargIn)
  rw [openZPath, hdec, Option.map_some, Buf.splice_val _ _ _ (by simp; omega)]
  simp

/-- The parameters are left behind, and NULL is copied from. -/
theorem name_never_reaches (A : Addresses) (z : Option FileName) (pFile : UnixFile)
    (flags : CInt) (pOutFlags : Option CInt) : ¬ NameReaches A z pFile flags pOutFlags := by
  intro h
  -- A stack without any NUL.
  obtain ⟨argIn, zPath, hargIn, hopen, -, -, huri⟩ := h fun _ => 1
  cases z with
  | none => cases hargIn
  | some f =>
    have hz : cstr f.bytes = some f.name := cstr_append _ _ f.name_ne
    have hname : f.name.length ≤ 511 := by
      obtain ⟨⟨path, rest⟩, hdec, -⟩ := Option.map_eq_some_iff.mp hopen
      exact open_short hz hargIn hdec
    obtain ⟨mem, hmem, hones⟩ : ∃ mem, openZPath (fun _ => 1) argIn =
        some (some (f.name ++ 0 :: mem)) ∧ 0 ∉ mem :=
      ⟨_, openZPath_eq hname hargIn, fun h0 => Buf.zero_not_mem_ones 512 (List.mem_of_mem_drop h0)⟩
    obtain rfl := Option.some.inj (hmem.symm.trans hopen)
    have hfound := (huri []).trans (f.uriParameter_bytes [])
    rw [sqlite3UriParameter, cstr_append _ _ f.name_ne, Option.bind_eq_bind, Option.bind_some,
      drop_cstr, uriLoop_eq_none hones] at hfound
    cases hfound

/-- `file:a?psow=0` -/
def psowOff : FileName :=
  ⟨[97], [([112, 115, 111, 119], [48])], by decide, by decide, by decide⟩

/-- A stack with the rest of `file:a?psow=1` on it. -/
def psowStack (i : Nat) : Byte := ([97, 0, 112, 115, 111, 119, 0, 49, 0] : List Byte).getD i 0

theorem name_parameter_changes :
    ¬ NameReaches Addresses.flat (some psowOff) UnixFile.zero 0x146 none := by
  intro h
  obtain ⟨argIn, zPath, hargIn, hopen, -, -, huri⟩ := h psowStack
  have hserver : openZPath psowStack argIn = _ := openZPath_eq (by decide) hargIn
  obtain rfl := Option.some.inj (hserver.symm.trans hopen)
  have hfound := (huri [112, 115, 111, 119]).trans (psowOff.uriParameter_bytes _)
  exact absurd hfound (by decide +kernel)

end Wire

end RemoteVfs
