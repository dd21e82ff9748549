import LibAsdf.Base.Ledger
import LibAsdf.Compression.Codecs

/-!
# Opening a compressed block

`asdf_block_comp_open` with what it acquires, where every step of it may fail.

* `CompResource`, `CompStep`: what is acquired, and the calls that may fail;
* `compStateCreate`, `lazySetup`, `compClose`, `compOpen`: the functions;
* `AllOrNothing`: how a block is to be left;
* `Sets`: the condition on the steps that are reached;
* `all_or_nothing`: the block is left so under that condition, and no other;
* `compOpen_granted`: where no step fails, it gives what the decoder gives;
* `compClose_opened`: what was opened is closed again.
-/

namespace LibAsdf

/-- What is acquired while a block is opened. -/
inductive CompResource where
  | state
  | probeUffd
  | probeFile
  | probeMap
  | file
  | map
  | userdata
  | lazyState
  | workBuf
  | uffd
  | evtfd
  | thread
  deriving DecidableEq, Repr

/-- The calls that may fail. -/
inductive CompStep where
  | state
  | kernelUffd
  | kernelApi
  | kernelRegister
  | probeUffd
  | probeApi
  | probeFile
  | probeTruncate
  | probeMap
  | probeRegister
  | file
  | truncate
  | map
  | userdata
  | stream
  | lazyState
  | workBuf
  | uffd
  | api
  | register
  | evtfd
  | thread
  deriving DecidableEq, Repr

/-- What must not happen: a resource is released that is not held, an assertion
fails, a descriptor is written to or closed that is someone else's, or a thread is
joined that was not started. -/
inductive CompFault where
  | released
  | assertion
  | descriptor
  | joined
  deriving DecidableEq, Repr

abbrev CompRun := Outcome CompFault

/-- `asdf_block_decomp_mode_t`. -/
inductive DecompMode where
  | auto
  | eager
  | lazy
  deriving DecidableEq, Repr

/-- The system, the configuration and the libraries. `probed` is what an earlier
probe of the kernel has found; `maxMemory` is the memory limit in bytes. -/
structure CompEnv where
  grant : CompStep → Bool
  probed : Option Bool
  mode : DecompMode
  maxMemory : Nat
  pageSize : Nat
  libs : CodecLibs

/-- A block, with the fields of its header. -/
structure CompBlock where
  compression : Bytes
  dataSize : Nat
  data : Bytes

/-- A descriptor in a state that `calloc` cleared. -/
inductive Descriptor where
  | zero
  | negative
  | opened (r : CompResource)
  deriving DecidableEq, Repr

/-- `asdf_block_comp_userfaultfd_t`. -/
structure UffdState where
  workBuf : Bool
  uffd : Descriptor
  evtfd : Descriptor
  thread : Bool
  deriving DecidableEq, Repr

/-- `asdf_block_comp_state_t`. -/
structure CompState where
  lazyMode : Bool
  ownFd : Bool
  userdata : Bool
  lazyState : Option UffdState
  deriving DecidableEq, Repr

/-- What is left when the function has returned: whether it returned 0,
`block->comp_state`, and what is held. -/
structure CompOpened where
  ok : Bool
  state : Option CompState
  held : Ledger CompResource
  deriving DecidableEq, Repr

section Open

variable (env : CompEnv)

/-! ## Destinations -/

/-- `asdf_create_temp_file`. -/
def createTempFile (mkstemp ftruncate : CompStep) (fd : CompResource) (size : Nat)
    (held : Ledger CompResource) : CompRun (Bool × Ledger CompResource) :=
  if !env.grant mkstemp then return (false, held)
  else if size > offMax || !env.grant ftruncate then do
    let held ← (held.acquire fd).release .released fd
    return (false, held)
  else return (true, held.acquire fd)

/-- `asdf_uffd_probe`. -/
def uffdProbe (held : Ledger CompResource) : CompRun (Bool × Ledger CompResource) :=
  if !env.grant .kernelUffd then return (false, held)
  else do
    let held ← (held.acquire .probeUffd).release .released .probeUffd
    return (env.grant .kernelApi && env.grant .kernelRegister, held)

/-- The end of `asdf_block_decomp_lazy_file_backing_available`. -/
def finishProbe (available : Bool) (map fd uffd : Option CompResource)
    (held : Ledger CompResource) : CompRun (Bool × Ledger CompResource) := do
  let held ← held.releaseAny .released map
  let held ← held.releaseAny .released fd
  let held ← held.releaseAny .released uffd
  return (available, held)

/-- `asdf_block_decomp_lazy_file_backing_available`. -/
def lazyFileBackingAvailable (held : Ledger CompResource) :
    CompRun (Bool × Ledger CompResource) :=
  if !env.grant .probeUffd then finishProbe false none none none held
  else do
    let held := held.acquire .probeUffd
    if !env.grant .probeApi then finishProbe false none none (some .probeUffd) held
    else do
      let (created, held) ← createTempFile env .probeFile .probeTruncate .probeFile env.pageSize held
      if !created then finishProbe false none none (some .probeUffd) held
      else if !env.grant .probeMap then
        finishProbe false none (some .probeFile) (some .probeUffd) held
      else
        finishProbe (env.grant .probeRegister) (some .probeMap) (some .probeFile) (some .probeUffd)
          (held.acquire .probeMap)

/-- The probe is made once, and its answer kept. -/
def kernelProbe (held : Ledger CompResource) : CompRun (Bool × Ledger CompResource) :=
  match env.probed with
  | some available => return (available, held)
  | none => uffdProbe env held

/-- `asdf_block_decomp_lazy_available`. -/
def lazyAvailable (fileBacking : Bool) (held : Ledger CompResource) :
    CompRun (Bool × Ledger CompResource) := do
  let (available, held) ← kernelProbe env held
  if !available then return (false, held)
  else if fileBacking then lazyFileBackingAvailable env held
  else return (true, held)

/-- Whether lazy mode is used, and a file. -/
def chooseMode (fileBacking : Bool) (held : Ledger CompResource) :
    CompRun (Bool × Bool × Ledger CompResource) :=
  match env.mode with
  | .eager => return (false, fileBacking, held)
  | .auto => do
    let (available, held) ← lazyAvailable env fileBacking held
    return (available && !fileBacking, fileBacking, held)
  | .lazy => do
    let (available, held) ← lazyAvailable env fileBacking held
    return (available, fileBacking && !available, held)

/-- `mmap` refuses an empty destination, and more than `PTRDIFF_MAX`. -/
def mapGranted (size : Nat) : Bool := env.grant .map && decide (0 < size ∧ size ≤ offMax)

/-- The destination: whether there is one, and whether it has a file. -/
def createDest (size : Nat) (lazyMode fileBacking : Bool) (held : Ledger CompResource) :
    CompRun (Option Bool × Ledger CompResource) :=
  if fileBacking && !lazyMode then do
    let (created, held) ← createTempFile env .file .truncate .file size held
    if !created then return (none, held)
    else if !mapGranted env size then do
      let held ← held.release .released .file
      return (none, held)
    else return (some true, held.acquire .map)
  else if !mapGranted env size then return (none, held)
  else return (some false, held.acquire .map)

/-! ## The state -/

/-- The `init` of a codec. The library's initialization fails with the state
still allocated. -/
def codecInit (codec : Codec) (block : CompBlock) (held : Ledger CompResource) :
    CompRun (Bool × Ledger CompResource) :=
  if !env.grant .userdata then return (false, held)
  else
    let held := held.acquire .userdata
    match codec with
    | .lz4 =>
      if (lz4Init block.data block.dataSize).isSome then return (true, held)
      else do
        let held ← held.release .released .userdata
        return (false, held)
    | .zlib | .bzp2 => return (env.grant .stream, held)

/-- `asdf_block_comp_state_create`. -/
def compStateCreate (block : CompBlock) (codec : Codec) (held : Ledger CompResource) :
    CompRun (Option CompState × Ledger CompResource) :=
  if !env.grant .state then return (none, held)
  else do
    let (lazyMode, fileBacking, held) ←
      chooseMode env (decide (block.dataSize > env.maxMemory)) (held.acquire .state)
    let (dest, held) ← createDest env block.dataSize lazyMode fileBacking held
    match dest with
    | none => do
      let held ← held.release .released .state
      return (none, held)
    | some ownFd => do
      let (userdata, held) ← codecInit env codec block held
      return (some {
        lazyMode := lazyMode
        ownFd := ownFd
        userdata := userdata
        lazyState := none }, held)

/-- The steps of `asdf_block_decomp_lazy` from the work buffer on. -/
def lazySteps (held : Ledger CompResource) : Bool × UffdState × Ledger CompResource :=
  let s : UffdState := ⟨false, .zero, .zero, false⟩
  if !env.grant .workBuf then (false, s, held)
  else
    let s := { s with workBuf := true }
    let held := held.acquire .workBuf
    if !env.grant .uffd then (false, { s with uffd := .negative }, held)
    else
      let s := { s with uffd := .opened .uffd }
      let held := held.acquire .uffd
      if !env.grant .api then (false, s, held)
      else if !env.grant .register then (false, s, held)
      else if !env.grant .evtfd then (false, { s with evtfd := .negative }, held)
      else
        let s := { s with evtfd := .opened .evtfd }
        let held := held.acquire .evtfd
        -- the result of `pthread_create` is not looked at
        if !env.grant .thread then (true, s, held)
        else (true, { s with thread := true }, held.acquire .thread)

/-- `asdf_block_decomp_lazy`. -/
def lazySetup (held : Ledger CompResource) : Bool × Option UffdState × Ledger CompResource :=
  if !env.grant .lazyState then (false, none, held)
  else
    let (ok, s, held) := lazySteps env (held.acquire .lazyState)
    (ok, some s, held)

/-! ## The end of a state -/

/-- `close` of a descriptor, which may be someone else's. -/
def closeDescriptor (held : Ledger CompResource) : Descriptor → CompRun (Ledger CompResource)
  | .zero => .fault .descriptor
  | .negative => return held
  | .opened r => held.release .released r

/-- The write of the shutdown event. -/
def signalHandler : Descriptor → CompRun Unit
  | .zero => .fault .descriptor
  | .negative => return ()
  | .opened _ => return ()

def joinHandler (s : UffdState) (held : Ledger CompResource) : CompRun (Ledger CompResource) :=
  if s.thread then held.release .released .thread else .fault .joined

/-- `asdf_block_decomp_lazy_shutdown`. -/
def lazyShutdown (held : Ledger CompResource) : Option UffdState → CompRun (Ledger CompResource)
  | none => return held
  | some s => do
    signalHandler s.evtfd
    let held ← joinHandler s held
    let held ← closeDescriptor held s.uffd
    let held ← closeDescriptor held s.evtfd
    let held ← held.releaseAny .released (if s.workBuf then some .workBuf else none)
    held.release .released .lazyState

/-- The `destroy` of a codec. -/
def codecDestroy (userdata : Bool) (held : Ledger CompResource) : CompRun (Ledger CompResource) :=
  if userdata then held.release .released .userdata else .fault .assertion

/-- `asdf_block_comp_close`. -/
def compClose (held : Ledger CompResource) : Option CompState → CompRun (Ledger CompResource)
  | none => return held
  | some state => do
    let held ← lazyShutdown held (if state.lazyMode then state.lazyState else none)
    let held ← codecDestroy state.userdata held
    let held ← held.release .released .map
    let held ← held.releaseAny .released (if state.ownFd then some .file else none)
    held.release .released .state

/-! ## Opening -/

/-- The codec of that name. -/
def codecGet (name : Bytes) : Option Codec :=
  [Codec.lz4, .zlib, .bzp2].find? fun codec => compressionName codec.field = name

/-- `asdf_block_decomp_lazy` or `asdf_block_decomp_eager`. -/
def decompStart (block : CompBlock) (codec : Codec) (state : CompState)
    (held : Ledger CompResource) : Bool × CompState × Ledger CompResource :=
  if state.lazyMode then
    let (ok, s, held) := lazySetup env held
    (ok, { state with lazyState := s }, held)
  else (((codec.compressor env.libs).decomp block.data block.dataSize).isSome, state, held)

/-- The failure exit of `asdf_block_comp_open`. -/
def compFail (state : Option CompState) (held : Ledger CompResource) : CompRun CompOpened := do
  let held ← compClose held state
  return ⟨false, none, held⟩

/-- `asdf_block_comp_open`. -/
def compOpen (block : CompBlock) : CompRun CompOpened :=
  let name := compressionName block.compression
  if name = [] then return ⟨true, none, []⟩
  else
    match codecGet name with
    | none => return ⟨false, none, []⟩
    | some codec => do
      match ← compStateCreate env block codec [] with
      | (none, held) => compFail none held
      | (some state, held) =>
        if !state.userdata then compFail (some state) held
        else
          let (ok, state, held) := decompStart env block codec state held
          if ok then return ⟨true, some state, held⟩ else compFail (some state) held

end Open

/-! ## What holds resources -/

def Descriptor.owned : Descriptor → List CompResource
  | zero | negative => []
  | opened r => [r]

def UffdState.owned (s : UffdState) : List CompResource :=
  (if s.thread then [.thread] else []) ++ s.evtfd.owned ++ s.uffd.owned ++
    (if s.workBuf then [.workBuf] else []) ++ [.lazyState]

/-- The resources that a state has, the last one first. -/
def CompState.owned (s : CompState) : List CompResource :=
  (s.lazyState.map UffdState.owned).getD [] ++ (if s.userdata then [.userdata] else []) ++ [.map] ++
    (if s.ownFd then [.file] else []) ++ [.state]

/-- The function returns: 0 with a state, which has all that is held (or, where
the block is not compressed, with nothing done), or an error with neither. -/
def AllOrNothing (env : CompEnv) (block : CompBlock) : Prop :=
  ∃ r, compOpen env block = .ret r ∧
    ((r.ok = true ∧ ∃ s, r.state = some s ∧ r.held = s.owned) ∨
      (r.ok = true ∧ compressionName block.compression = [] ∧ r.state = none ∧ r.held = []) ∨
      (r.ok = false ∧ r.state = none ∧ r.held = []))

/-! ## What the steps come to -/

namespace CompEnv

variable (env : CompEnv)

def tempGranted (mkstemp ftruncate : CompStep) (size : Nat) : Bool :=
  env.grant mkstemp && decide (size ≤ offMax) && env.grant ftruncate

def kernelAvailable : Bool :=
  env.probed.getD (env.grant .kernelUffd && (env.grant .kernelApi && env.grant .kernelRegister))

def fileBackingAvailable : Bool :=
  env.grant .probeUffd && env.grant .probeApi &&
    env.tempGranted .probeFile .probeTruncate env.pageSize && env.grant .probeMap &&
      env.grant .probeRegister

def available (fileBacking : Bool) : Bool :=
  env.kernelAvailable && (!fileBacking || env.fileBackingAvailable)

def fileBacking (block : CompBlock) : Bool := decide (block.dataSize > env.maxMemory)

/-- Whether the block is decompressed lazily. -/
def lazyMode (block : CompBlock) : Bool :=
  match env.mode with
  | .eager => false
  | .auto => env.available (env.fileBacking block) && !env.fileBacking block
  | .lazy => env.available (env.fileBacking block)

/-- Whether the block is decompressed to a file. -/
def toFile (block : CompBlock) : Bool := env.fileBacking block && !env.lazyMode block

/-- The destination is there. -/
def destGranted (block : CompBlock) : Bool :=
  (!env.toFile block || env.tempGranted .file .truncate block.dataSize) &&
    mapGranted env block.dataSize

/-- The state and its destination are there. -/
def prepared (block : CompBlock) : Bool := env.grant .state && env.destGranted block

/-- The codec's `init` returns a state. -/
def inits (codec : Codec) (block : CompBlock) : Bool :=
  env.grant .userdata && match codec with
    | .lz4 => (lz4Init block.data block.dataSize).isSome
    | .zlib | .bzp2 => env.grant .stream

/-- The steps of the lazy setup from the work buffer to the event descriptor. -/
def sets : Bool :=
  env.grant .workBuf && env.grant .uffd && env.grant .api && env.grant .register &&
    env.grant .evtfd

end CompEnv

/-- Where `init` is reached it returns a state, and where the lazy setup has
allocated its own it fails at no later step. -/
def Sets (env : CompEnv) (block : CompBlock) : Prop :=
  ∀ codec, codecGet (compressionName block.compression) = some codec →
    env.prepared block = true →
      env.inits codec block = true ∧
        (env.lazyMode block = true → env.grant .lazyState = true → env.sets = true)

section Runs

variable (env : CompEnv)

theorem createTempFile_run (mkstemp ftruncate : CompStep) (fd : CompResource) (size : Nat)
    (held : Ledger CompResource) : createTempFile env mkstemp ftruncate fd size held =
      .ret (env.tempGranted mkstemp ftruncate size,
        if env.tempGranted mkstemp ftruncate size then fd :: held else held) := by
  unfold createTempFile CompEnv.tempGranted
  cases env.grant mkstemp
  · rfl
  · by_cases large : size > offMax
    · have small : ¬ size ≤ offMax := by omega
      simp only [large, small, Ledger.release_acquire]
      rfl
    · have small : size ≤ offMax := by omega
      cases env.grant ftruncate <;> simp only [large, small, Ledger.release_acquire] <;> rfl

theorem uffdProbe_run (held : Ledger CompResource) : uffdProbe env held =
    .ret (env.grant .kernelUffd && (env.grant .kernelApi && env.grant .kernelRegister), held) := by
  unfold uffdProbe
  cases env.grant .kernelUffd
  · rfl
  · rw [Ledger.release_acquire]
    rfl

/-- The probe has nothing left at its end. -/
theorem lazyFileBackingAvailable_run (held : Ledger CompResource) :
    lazyFileBackingAvailable env held = .ret (env.fileBackingAvailable, held) := by
  have one (available : Bool) : finishProbe available none none (some .probeUffd)
      (held.acquire .probeUffd) = .ret (available, held) := by
    unfold finishProbe
    simp only [Ledger.releaseAny_none, Ledger.releaseAny_some, Outcome.ret_bind,
      Ledger.release_acquire, Outcome.pure_eq]
  have two (available : Bool) : finishProbe available none (some .probeFile) (some .probeUffd)
      ((held.acquire .probeUffd).acquire .probeFile) = .ret (available, held) := by
    unfold finishProbe
    simp only [Ledger.releaseAny_none, Ledger.releaseAny_some, Outcome.ret_bind,
      Ledger.release_acquire, Outcome.pure_eq]
  have three (available : Bool) : finishProbe available (some .probeMap) (some .probeFile)
      (some .probeUffd) (((held.acquire .probeUffd).acquire .probeFile).acquire .probeMap) =
        .ret (available, held) := by
    unfold finishProbe
    simp only [Ledger.releaseAny_some, Outcome.ret_bind, Ledger.release_acquire, Outcome.pure_eq]
  unfold lazyFileBackingAvailable CompEnv.fileBackingAvailable
  cases env.grant .probeUffd
  · rfl
  · cases env.grant .probeApi
    · exact one false
    · simp only [Bool.not_true, createTempFile_run, Outcome.ret_bind]
      cases env.tempGranted .probeFile .probeTruncate env.pageSize
      · exact one false
      · cases env.grant .probeMap
        · exact two false
        · exact three (env.grant .probeRegister)

theorem kernelProbe_run (held : Ledger CompResource) :
    kernelProbe env held = .ret (env.kernelAvailable, held) := by
  unfold kernelProbe CompEnv.kernelAvailable
  cases env.probed with
  | some available => rfl
  | none => exact uffdProbe_run env held

theorem lazyAvailable_run (fileBacking : Bool) (held : Ledger CompResource) :
    lazyAvailable env fileBacking held = .ret (env.available fileBacking, held) := by
  unfold lazyAvailable CompEnv.available
  rw [kernelProbe_run, Outcome.ret_bind]
  cases env.kernelAvailable
  · rfl
  · cases fileBacking
    · rfl
    · exact lazyFileBackingAvailable_run env held

theorem chooseMode_run (block : CompBlock) (held : Ledger CompResource) :
    ∃ fileBacking, chooseMode env (decide (block.dataSize > env.maxMemory)) held =
        .ret (env.lazyMode block, fileBacking, held) ∧
      (fileBacking && !env.lazyMode block) = env.toFile block := by
  change ∃ fileBacking, chooseMode env (env.fileBacking block) held = _ ∧ _
  unfold chooseMode CompEnv.toFile CompEnv.lazyMode
  cases env.mode with
  | eager => exact ⟨env.fileBacking block, rfl, rfl⟩
  | auto =>
    rw [lazyAvailable_run]
    exact ⟨env.fileBacking block, rfl, rfl⟩
  | lazy =>
    rw [lazyAvailable_run]
    refine ⟨env.fileBacking block && !env.available (env.fileBacking block), rfl, ?_⟩
    rw [Bool.and_assoc, Bool.and_self]

theorem createDest_run (block : CompBlock) {lazyMode fileBacking : Bool}
    (toFile : (fileBacking && !lazyMode) = env.toFile block) (held : Ledger CompResource) :
    createDest env block.dataSize lazyMode fileBacking held =
      if env.destGranted block then .ret (some (env.toFile block),
        .map :: ((if env.toFile block then [.file] else []) ++ held))
      else .ret (none, held) := by
  unfold createDest CompEnv.destGranted
  rw [toFile]
  cases env.toFile block
  · cases mapGranted env block.dataSize <;> rfl
  · rw [if_pos rfl, createTempFile_run, Outcome.ret_bind]
    cases env.tempGranted .file .truncate block.dataSize
    · rfl
    · cases mapGranted env block.dataSize
      · have released : Ledger.release CompFault.released .file (CompResource.file :: held) =
            .ret held := Ledger.release_acquire _ _ _
        simp only [Bool.not_true, Bool.not_false, Bool.false_eq_true, if_false, if_true, released,
          Outcome.ret_bind, Outcome.pure_eq, Bool.and_false]
      · rfl

/-- Where `init` succeeds, its state is held. -/
theorem codecInit_run (codec : Codec) (block : CompBlock) (held : Ledger CompResource) :
    ∃ held', codecInit env codec block held = .ret (env.inits codec block, held') ∧
      (env.inits codec block = true → held' = .userdata :: held) := by
  unfold codecInit CompEnv.inits
  cases env.grant .userdata
  · exact ⟨held, rfl, nofun⟩
  · cases codec with
    | lz4 =>
      cases (lz4Init block.data block.dataSize).isSome
      · refine ⟨held, ?_, nofun⟩
        simp only [Bool.not_true, Bool.false_eq_true, if_false, Ledger.release_acquire,
          Outcome.ret_bind, Outcome.pure_eq, Bool.and_false]
      · exact ⟨_, rfl, fun _ => rfl⟩
    | zlib => exact ⟨_, rfl, fun _ => rfl⟩
    | bzp2 => exact ⟨_, rfl, fun _ => rfl⟩

/-- The state before decompression is set up. -/
def CompEnv.created (block : CompBlock) (codec : Codec) : CompState where
  lazyMode := env.lazyMode block
  ownFd := env.toFile block
  userdata := env.inits codec block
  lazyState := none

theorem compStateCreate_run (block : CompBlock) (codec : Codec) :
    ∃ held, compStateCreate env block codec [] =
        (if env.prepared block then .ret (some (env.created block codec), held)
          else .ret (none, [])) ∧
      (env.inits codec block = true → held = (env.created block codec).owned) := by
  obtain ⟨fileBacking, choose, toFile⟩ := chooseMode_run env block [.state]
  obtain ⟨held, init, kept⟩ := codecInit_run env codec block
    (.map :: ((if env.toFile block then [.file] else []) ++ [.state]))
  refine ⟨held, ?_, ?_⟩
  · unfold compStateCreate CompEnv.prepared
    cases env.grant .state
    · rfl
    · change (chooseMode env _ [.state]).bind _ = _
      rw [choose]
      change (createDest env block.dataSize (env.lazyMode block) fileBacking [.state]).bind _ = _
      rw [createDest_run env block toFile]
      cases env.destGranted block
      · rfl
      · change (codecInit env codec block _).bind _ = _
        rw [init]
        rfl
  · intro good
    rw [kept good, CompState.owned]
    simp only [CompEnv.created, good, Option.map_none, Option.getD_none, if_true, List.nil_append,
      List.cons_append]

/-! ## The lazy setup, and the end of a state -/

/-- The state of the lazy setup when it has come to its end. -/
def UffdState.running (thread : Bool) : UffdState where
  workBuf := true
  uffd := .opened .uffd
  evtfd := .opened .evtfd
  thread := thread

theorem lazySteps_sets (sets : env.sets = true) (held : Ledger CompResource) :
    lazySteps env (held.acquire .lazyState) =
      (true, .running (env.grant .thread), (UffdState.running (env.grant .thread)).owned ++ held) := by
  simp only [CompEnv.sets, Bool.and_eq_true] at sets
  obtain ⟨⟨⟨⟨workBuf, uffd⟩, api⟩, register⟩, evtfd⟩ := sets
  unfold lazySteps
  rw [workBuf, uffd, api, register, evtfd]
  cases env.grant .thread <;> rfl

/-- A step that fails leaves a state whose thread is not started. -/
theorem lazySteps_fails (sets : env.sets = false) (held : Ledger CompResource) :
    ∃ s held', lazySteps env held = (false, s, held') ∧ s.thread = false := by
  unfold CompEnv.sets at sets
  unfold lazySteps
  cases workBuf : env.grant .workBuf
  · exact ⟨_, _, rfl, rfl⟩
  · cases uffd : env.grant .uffd
    · exact ⟨_, _, rfl, rfl⟩
    · cases api : env.grant .api
      · exact ⟨_, _, rfl, rfl⟩
      · cases register : env.grant .register
        · exact ⟨_, _, rfl, rfl⟩
        · cases evtfd : env.grant .evtfd
          · exact ⟨_, _, rfl, rfl⟩
          · rw [workBuf, uffd, api, register, evtfd] at sets
            cases sets

/-- A thread that was not started is signalled or joined. -/
theorem lazyShutdown_faults {s : UffdState} (started : s.thread = false)
    (held : Ledger CompResource) : ∃ e, lazyShutdown held (some s) = .fault e := by
  simp only [lazyShutdown, joinHandler, started, Bool.false_eq_true, if_false]
  cases s.evtfd with
  | zero => exact ⟨_, rfl⟩
  | negative => exact ⟨_, rfl⟩
  | opened r => exact ⟨_, rfl⟩

theorem compClose_faults {s : CompState} (userdata : s.userdata = false)
    (lazyState : s.lazyState = none) (held : Ledger CompResource) :
    compClose held (some s) = .fault .assertion := by
  simp only [compClose, codecDestroy, userdata, lazyState, ite_self]
  rfl

theorem owned_lazyState {s : CompState} (unset : s.lazyState = none) (l : UffdState) :
    CompState.owned { s with lazyState := some l } = l.owned ++ s.owned := by
  simp only [CompState.owned, unset, Option.map_some, Option.map_none, Option.getD_some,
    Option.getD_none, List.nil_append, List.append_assoc]

/-- A state that can be closed: it has its codec's, and its thread if it is lazy
and was set up. -/
structure CompState.Closable (s : CompState) : Prop where
  userdata : s.userdata = true
  lazyState : s.lazyState = none ∨ s.lazyMode = true ∧ s.lazyState = some (.running true)

/-- A state that can be closed is released with all that it has. -/
theorem compClose_owned {s : CompState} (closable : s.Closable) :
    compClose s.owned (some s) = .ret [] := by
  obtain ⟨lazyMode, ownFd, userdata, lazyState⟩ := s
  obtain ⟨userdata, lazyState⟩ := closable
  cases userdata
  obtain lazyState | ⟨lazyMode, lazyState⟩ := lazyState
  · cases lazyState
    cases lazyMode <;> cases ownFd <;> rfl
  · cases lazyMode
    cases lazyState
    cases ownFd <;> rfl

end Runs

/-! ## The whole function -/

section Whole

variable {env : CompEnv} {block : CompBlock} {codec : Codec}

/-- The part that follows on `compStateCreate`. -/
def compStart (env : CompEnv) (block : CompBlock) (codec : Codec) (state : CompState)
    (held : Ledger CompResource) : CompRun CompOpened :=
  if !state.userdata then compFail (some state) held
  else
    let (ok, state, held) := decompStart env block codec state held
    if ok then return ⟨true, some state, held⟩ else compFail (some state) held

theorem compOpen_run (named : compressionName block.compression ≠ [])
    (known : codecGet (compressionName block.compression) = some codec) :
    ∃ held, compOpen env block =
        (if env.prepared block then compStart env block codec (env.created block codec) held
          else .ret ⟨false, none, []⟩) ∧
      (env.inits codec block = true → held = (env.created block codec).owned) := by
  obtain ⟨held, create, kept⟩ := compStateCreate_run env block codec
  refine ⟨held, ?_, kept⟩
  unfold compOpen
  dsimp only
  rw [if_neg named, known]
  change (compStateCreate env block codec []).bind _ = _
  rw [create]
  cases env.prepared block <;> rfl

theorem decompStart_eager {s : CompState} (eager : s.lazyMode = false)
    (held : Ledger CompResource) : decompStart env block codec s held =
      (((codec.compressor env.libs).decomp block.data block.dataSize).isSome, s, held) := by
  unfold decompStart
  rw [if_neg (by rw [eager]; decide)]

theorem decompStart_unallocated {s : CompState} (lazily : s.lazyMode = true)
    (alloc : env.grant .lazyState = false) (held : Ledger CompResource) :
    decompStart env block codec s held = (false, { s with lazyState := none }, held) := by
  unfold decompStart lazySetup
  rw [if_pos lazily, alloc]
  rfl

theorem decompStart_lazy {s : CompState} (lazily : s.lazyMode = true)
    (alloc : env.grant .lazyState = true) (held : Ledger CompResource) :
    decompStart env block codec s held =
      ((lazySteps env (held.acquire .lazyState)).1,
        { s with lazyState := some (lazySteps env (held.acquire .lazyState)).2.1 },
        (lazySteps env (held.acquire .lazyState)).2.2) := by
  unfold decompStart lazySetup
  rw [if_pos lazily, alloc]
  rfl

/-- What a failure after `init` leaves. -/
theorem compFail_owned {s : CompState} (closable : s.Closable) :
    compFail (some s) s.owned = .ret ⟨false, none, []⟩ := by
  unfold compFail
  rw [compClose_owned closable]
  rfl

theorem compStart_inits (inits : env.inits codec block = true) (held : Ledger CompResource) :
    compStart env block codec (env.created block codec) held =
      if (decompStart env block codec (env.created block codec) held).1 then
        .ret ⟨true, some (decompStart env block codec (env.created block codec) held).2.1,
          (decompStart env block codec (env.created block codec) held).2.2⟩
      else compFail (some (decompStart env block codec (env.created block codec) held).2.1)
        (decompStart env block codec (env.created block codec) held).2.2 := by
  have userdata : (env.created block codec).userdata = true := inits
  unfold compStart
  rw [userdata]
  rfl

/-- The state of a block that was opened. -/
def CompEnv.opened (env : CompEnv) (block : CompBlock) (codec : Codec) : CompState :=
  { env.created block codec with
    lazyState := if env.lazyMode block then some (.running (env.grant .thread)) else none }

/-- With the codec's state, and no failing step, a state or nothing is left. -/
theorem compStart_sets (inits : env.inits codec block = true)
    (sets : env.lazyMode block = true → env.grant .lazyState = true → env.sets = true) :
    compStart env block codec (env.created block codec) (env.created block codec).owned =
        .ret ⟨true, some (env.opened block codec), (env.opened block codec).owned⟩ ∨
      compStart env block codec (env.created block codec) (env.created block codec).owned =
        .ret ⟨false, none, []⟩ := by
  have closable : (env.created block codec).Closable := ⟨inits, .inl rfl⟩
  rw [compStart_inits inits]
  cases mode : env.lazyMode block with
  | false =>
    rw [decompStart_eager mode]
    have same : env.opened block codec = env.created block codec := by
      unfold CompEnv.opened
      rw [mode]
      rfl
    rw [same]
    cases ((codec.compressor env.libs).decomp block.data block.dataSize).isSome
    · exact .inr (compFail_owned closable)
    · exact .inl rfl
  | true =>
    cases alloc : env.grant .lazyState with
    | false =>
      rw [decompStart_unallocated mode alloc]
      exact .inr (compFail_owned closable)
    | true =>
      rw [decompStart_lazy mode alloc, lazySteps_sets env (sets mode alloc)]
      have same : env.opened block codec = { env.created block codec with
          lazyState := some (.running (env.grant .thread)) } := by
        unfold CompEnv.opened
        rw [mode]
        rfl
      rw [same, owned_lazyState rfl]
      exact .inl rfl

/-- Otherwise the failure exit does what it must not. -/
theorem compStart_faults (held : Ledger CompResource)
    (fails : env.inits codec block = false ∨
      env.lazyMode block = true ∧ env.grant .lazyState = true ∧ env.sets = false) :
    ∃ e, compStart env block codec (env.created block codec) held = .fault e := by
  cases inits : env.inits codec block with
  | false =>
    have userdata : (env.created block codec).userdata = false := inits
    refine ⟨.assertion, ?_⟩
    unfold compStart compFail
    rw [userdata, compClose_faults userdata rfl]
    rfl
  | true =>
    obtain ⟨mode, alloc, sets⟩ := fails.resolve_left fun h => by rw [inits] at h; cases h
    obtain ⟨s, held', steps, started⟩ := lazySteps_fails env sets (held.acquire .lazyState)
    obtain ⟨e, faults⟩ := lazyShutdown_faults started held'
    refine ⟨e, ?_⟩
    rw [compStart_inits inits, decompStart_lazy mode alloc, steps]
    change (compClose held' (some { env.created block codec with lazyState := some s })).bind _ = _
    have lazily : (env.created block codec).lazyMode = true := mode
    simp only [compClose, lazily, if_true, faults]
    rfl

/-- How a block is left that is opened without a fault. -/
theorem compOpen_sets (named : compressionName block.compression ≠ [])
    (known : codecGet (compressionName block.compression) = some codec) (sets : Sets env block) :
    compOpen env block = .ret ⟨true, some (env.opened block codec), (env.opened block codec).owned⟩ ∨
      compOpen env block = .ret ⟨false, none, []⟩ := by
  obtain ⟨held, run, kept⟩ := @compOpen_run env block codec named known
  cases prepared : env.prepared block with
  | false =>
    rw [prepared] at run
    exact .inr run
  | true =>
    rw [prepared, if_pos rfl] at run
    obtain ⟨inits, sets⟩ := sets codec known prepared
    rw [kept inits] at run
    rw [run]
    exact compStart_sets inits sets

/-- A block is left with a state, or with nothing, just if `init` returns a state
where it is reached, and no step of the lazy setup fails once its own state is
allocated. -/
theorem all_or_nothing (env : CompEnv) (block : CompBlock) :
    AllOrNothing env block ↔ Sets env block := by
  by_cases named : compressionName block.compression = []
  · constructor
    · intro _ codec known
      rw [named] at known
      cases known
    · intro _
      exact ⟨⟨true, none, []⟩, if_pos named, .inr (.inl ⟨rfl, named, rfl, rfl⟩)⟩
  · cases known : codecGet (compressionName block.compression) with
    | none =>
      constructor
      · intro _ codec known'
        rw [known] at known'
        cases known'
      · intro _
        refine ⟨⟨false, none, []⟩, ?_, .inr (.inr ⟨rfl, rfl, rfl⟩)⟩
        unfold compOpen
        dsimp only
        rw [if_neg named, known]
        rfl
    | some codec =>
      constructor
      · rintro ⟨r, ret, -⟩ codec' known' prepared
        cases known.symm.trans known'
        obtain ⟨held, run, -⟩ := @compOpen_run env block codec named known
        rw [prepared, if_pos rfl] at run
        by_contra fails
        have fails : env.inits codec block = false ∨
            env.lazyMode block = true ∧ env.grant .lazyState = true ∧ env.sets = false := by
          simp only [not_and_or, Classical.not_imp, Bool.not_eq_true] at fails
          exact fails
        obtain ⟨e, faults⟩ := compStart_faults held fails
        rw [run, faults] at ret
        cases ret
      · intro sets
        obtain ret | ret := compOpen_sets named known sets
        · exact ⟨_, ret, .inl ⟨rfl, _, rfl, rfl⟩⟩
        · exact ⟨_, ret, .inr (.inr ⟨rfl, rfl, rfl⟩)⟩

/-! ## A block that was opened -/

/-- What was opened is closed with nothing left, unless its thread could not be
started, which `asdf_block_comp_open` does not look at. -/
theorem compClose_opened (inits : env.inits codec block = true) :
    compClose (env.opened block codec).owned (some (env.opened block codec)) = .ret [] ↔
      (env.lazyMode block = true → env.grant .thread = true) := by
  cases mode : env.lazyMode block with
  | false =>
    apply iff_of_true _ nofun
    apply compClose_owned
    refine ⟨inits, .inl ?_⟩
    unfold CompEnv.opened
    rw [mode]
    rfl
  | true =>
    have lazyState : (env.opened block codec).lazyState =
        some (.running (env.grant .thread)) := by
      unfold CompEnv.opened
      rw [mode]
      rfl
    cases thread : env.grant .thread with
    | true =>
      rw [thread] at lazyState
      exact iff_of_true (compClose_owned ⟨inits, .inr ⟨mode, lazyState⟩⟩) fun _ => rfl
    | false =>
      rw [thread] at lazyState
      have lazily : (env.opened block codec).lazyMode = true := mode
      obtain ⟨e, faults⟩ := lazyShutdown_faults (s := .running false) rfl
        (env.opened block codec).owned
      apply iff_of_false
      · simp only [compClose, lazily, if_true, lazyState, faults, Outcome.fault_bind]
        exact nofun
      · exact fun h => nomatch h rfl

theorem compressorGet_codecGet (libs : CodecLibs) (name : Bytes) :
    compressorGet libs.registry name = (codecGet name).map (Codec.compressor libs) := by
  unfold compressorGet CodecLibs.registry codecGet
  rw [List.find?_map]
  rfl

theorem prepared_granted (granted : ∀ step, env.grant step = true) :
    env.prepared block = decide (¬ (block.dataSize = 0 ∨ block.dataSize > offMax)) := by
  unfold CompEnv.prepared CompEnv.destGranted CompEnv.tempGranted mapGranted
  simp only [granted, Bool.true_and, Bool.and_true]
  by_cases large : block.dataSize > offMax
  · have small : ¬ block.dataSize ≤ offMax := by omega
    simp only [large, small, and_false, decide_false, Bool.and_false, or_true, not_true_eq_false]
  · have small : block.dataSize ≤ offMax := by omega
    simp only [large, small, and_true, decide_true, Bool.or_true, Bool.true_and, or_false,
      Nat.pos_iff_ne_zero, ne_eq]

/-- Where every call succeeds and nothing is lazy, a block is opened just if the
decoder succeeds. -/
theorem compOpen_granted (granted : ∀ step, env.grant step = true) (eager : env.mode = .eager)
    (named : compressionName block.compression ≠ []) (sets : Sets env block) :
    ∃ r, compOpen env block = .ret r ∧ r.ok =
      (blockCompOpen env.libs.registry block.compression block.dataSize block.data).isSome := by
  unfold blockCompOpen
  dsimp only
  rw [if_neg named, compressorGet_codecGet]
  cases known : codecGet (compressionName block.compression) with
  | none =>
    refine ⟨⟨false, none, []⟩, ?_, rfl⟩
    unfold compOpen
    dsimp only
    rw [if_neg named, known]
    rfl
  | some codec =>
    obtain ⟨held, run, kept⟩ := @compOpen_run env block codec named known
    have prepared := @prepared_granted env block granted
    by_cases refused : block.dataSize = 0 ∨ block.dataSize > offMax
    · rw [prepared, if_neg (by rw [decide_eq_true_iff]; exact not_not.mpr refused)] at run
      exact ⟨_, run, by simp only [Option.map_some, if_pos refused]; rfl⟩
    · have ready : env.prepared block = true := by
        rw [prepared]
        exact decide_eq_true refused
      have mode : env.lazyMode block = false := by
        unfold CompEnv.lazyMode
        rw [eager]
      have inits := (sets codec known ready).1
      have closable : (env.created block codec).Closable := ⟨inits, .inl rfl⟩
      rw [ready, if_pos rfl, compStart_inits inits, decompStart_eager mode, kept inits] at run
      simp only [Option.map_some, if_neg refused, Option.isSome_map]
      cases decodes : ((codec.compressor env.libs).decomp block.data block.dataSize).isSome
      · rw [decodes] at run
        exact ⟨_, run.trans (compFail_owned closable), rfl⟩
      · rw [decodes] at run
        exact ⟨_, run, rfl⟩

end Whole

/-! ## A block that is too short -/

section Short

def grantingEnv : CompEnv where
  grant _ := true
  probed := none
  mode := .eager
  maxMemory := sizeMax
  pageSize := 4096
  libs := storingLibs (· + 1) []

/-- An LZ4 block of three bytes, which is less than a header. -/
def shortBlock : CompBlock where
  compression := Codec.lz4.field
  dataSize := 3
  data := [1, 2, 3]

/-- `destroy` is called with no state, and asserts that there is one. -/
theorem short_lz4_asserts : compOpen grantingEnv shortBlock = .fault .assertion ∧
    ¬ AllOrNothing grantingEnv shortBlock := by
  have asserts : compOpen grantingEnv shortBlock = .fault .assertion := by decide +kernel
  apply And.intro asserts
  rintro ⟨r, run, -⟩
  rw [asserts] at run
  cases run

end Short

end LibAsdf
