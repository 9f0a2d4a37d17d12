import Mathlib.Data.Finset.Insert
import Vdma.Fabric.LocalRegions
import Vdma.Lib.Machine
import Vdma.Module.Transfer

/-!
# `Vdma.Module.ExtentHooks`: jemalloc reclaims what the module registers

The wrapped extent hooks (`memory/extent_hooks.rs`) beside the registrations of the
module's operands. jemalloc is an input: which arena owns a byte, what its `mallctl` calls
answer, and what a default hook returns.

`process` is the machine of all the threads. A worker registers the operand of a token
section by section, as in `LocalRegions`, and what `cacheable_span` answers is
`OpToken.cacheableSpan`. A thread inside jemalloc goes through a hook: a wrapped one in
an arena that is hooked, the arena's own in one that is not. The two kinds of thread are
numbered apart, because jemalloc may call a hook under any other code.

`handed` keeps what a statement about the past needs: each range that went to a default
hook, and the age the next registration was to get.

The hooks that drop no page, and the arguments `committed` and `arena_ind`, pass straight
through and are left out.
-/

set_option autoImplicit false

namespace Vdma.Module.Memory

open Vdma.Lib Vdma.Fabric

/-- `usize` addition, which wraps. -/
def usizeAdd (a b : Nat) : Nat := (a + b) % addressSpace

/-! ### The hooks -/

/-- The reclaim hooks of a table: which of them are there. -/
structure ExtentHooks where
  dalloc : Bool
  destroy : Bool
  decommit : Bool
  purgeLazy : Bool
  purgeForced : Bool

/-- The table with no hook in it. -/
def ExtentHooks.empty : ExtentHooks := ⟨false, false, false, false, false⟩

/-- `DEFAULT` and `ARMED`. -/
structure Hooks where
  default : ExtentHooks
  armed : Bool

/-- `install`, for what `read_extent_hooks(0)` answers. -/
def install : Option ExtentHooks → Hooks
  | some default => ⟨default, true⟩
  | none => ⟨.empty, false⟩

/-- A call of a reclaim hook. `dalloc` and `destroy` reclaim the whole extent
`[addr, addr + size)`, the others `length` bytes of it from `offset` on. -/
inductive Reclaim where
  | dalloc (addr size : Nat)
  | destroy (addr size : Nat)
  | decommit (addr size offset length : Nat)
  | purgeLazy (addr size offset length : Nat)
  | purgeForced (addr size offset length : Nat)
  deriving DecidableEq, Repr

namespace Reclaim

/-- The first address reclaimed. -/
def start : Reclaim → Nat
  | .dalloc addr _ | .destroy addr _ => addr
  | .decommit addr _ offset _ | .purgeLazy addr _ offset _ | .purgeForced addr _ offset _ =>
    addr + offset

/-- One past the last address reclaimed. -/
def stop : Reclaim → Nat
  | .dalloc addr size | .destroy addr size => addr + size
  | .decommit addr _ offset length | .purgeLazy addr _ offset length
  | .purgeForced addr _ offset length => addr + offset + length

/-- Whether the table has the hook. -/
def isIn (hooks : ExtentHooks) : Reclaim → Bool
  | .dalloc .. => hooks.dalloc
  | .destroy .. => hooks.destroy
  | .decommit .. => hooks.decommit
  | .purgeLazy .. => hooks.purgeLazy
  | .purgeForced .. => hooks.purgeForced

/-- What the hook returns to jemalloc: `true` on failure, and `destroy` nothing. -/
def result (failed : Bool) : Reclaim → Option Bool
  | .destroy .. => none
  | _ => some failed

/-- Whether the extent is gone from its arena after the hook. -/
def unmaps (failed : Bool) : Reclaim → Bool
  | .dalloc .. => !failed
  | .destroy .. => true
  | _ => false

end Reclaim

/-- Where a thread that reclaims a range stands. -/
inductive HookCall where
  | idle
  /-- In a wrapped hook, about to deregister `[start, stop)`. -/
  | deregister (start stop : Nat) (default : Reclaim)
  /-- Retired the extents, and about to drop their leases. The last section chains to the
  default. -/
  | retired (leases : List Nat) (default : Reclaim)
  /-- About to call an arena's own hook. -/
  | unhooked (default : Reclaim)
  /-- About to return to jemalloc. -/
  | returned (result : Option Bool)

def wrappedDalloc (addr size : Nat) : HookCall :=
  .deregister addr (usizeAdd addr size) (.dalloc addr size)

def wrappedDestroy (addr size : Nat) : HookCall :=
  .deregister addr (usizeAdd addr size) (.destroy addr size)

/-- The shared body of the range hooks. -/
def reclaimRange (default : Reclaim) (addr offset length : Nat) : HookCall :=
  let subStart := usizeAdd addr offset
  .deregister subStart (usizeAdd subStart length) default

def wrappedDecommit (addr size offset length : Nat) : HookCall :=
  reclaimRange (.decommit addr size offset length) addr offset length

def wrappedPurgeLazy (addr size offset length : Nat) : HookCall :=
  reclaimRange (.purgeLazy addr size offset length) addr offset length

def wrappedPurgeForced (addr size offset length : Nat) : HookCall :=
  reclaimRange (.purgeForced addr size offset length) addr offset length

/-- `WRAPPED`: the hook for a call. -/
def wrapped : Reclaim → HookCall
  | .dalloc addr size => wrappedDalloc addr size
  | .destroy addr size => wrappedDestroy addr size
  | .decommit addr size offset length => wrappedDecommit addr size offset length
  | .purgeLazy addr size offset length => wrappedPurgeLazy addr size offset length
  | .purgeForced addr size offset length => wrappedPurgeForced addr size offset length

/-- A hook whose range ends inside the address space deregisters that range. -/
theorem wrapped_eq {r : Reclaim} (h : r.stop < addressSpace) :
    wrapped r = .deregister r.start r.stop r := by
  cases r with
  | dalloc addr size | destroy addr size =>
    have hstop : usizeAdd addr size = addr + size := Nat.mod_eq_of_lt h
    show HookCall.deregister addr (usizeAdd addr size) _ = .deregister addr (addr + size) _
    rw [hstop]
  | decommit addr size offset length | purgeLazy addr size offset length
  | purgeForced addr size offset length =>
    have hsub : usizeAdd addr offset = addr + offset :=
      Nat.mod_eq_of_lt (Nat.lt_of_le_of_lt (Nat.le_add_right _ length) h)
    have hstop : usizeAdd (addr + offset) length = addr + offset + length := Nat.mod_eq_of_lt h
    show HookCall.deregister (usizeAdd addr offset) (usizeAdd (usizeAdd addr offset) length) _
      = .deregister (addr + offset) (addr + offset + length) _
    rw [hsub, hstop]

namespace HookCall

/-- The range on its way to a default hook. -/
def reclaim : HookCall → Option Reclaim
  | .deregister _ _ r | .retired _ r | .unhooked r => some r
  | .idle | .returned _ => none

end HookCall

/-! ### The state -/

/-- The bytes `cacheable_span` looks at: the value of a `DMA.GET`, the destination of a
`DMA.SET`. -/
def bytes : OpToken → Option Slice
  | .get _ held => some held.asBytes
  | .set _ destination .. => destination.map ValkeyString.asSlice

/-- A worker on its way to register the operand of a token. -/
structure Posting where
  domain : Domain
  token : OpToken
  call : OperandCall

/-- A range that went to a default hook. The registrations taken by then are those named
below `before`. -/
structure Handed where
  start : Nat
  stop : Nat
  before : Nat
  deriving DecidableEq, Repr

/-- The registration cache, the threads on it, and jemalloc's arenas. -/
structure Process where
  cache : Cache
  postings : Nat → Option Posting
  leases : List Nat
  hookCalls : Nat → HookCall
  /-- The arena that owns a byte. -/
  owner : Nat → Option Nat
  /-- The arenas whose hooks are `WRAPPED`. -/
  hooked : Finset Nat
  handed : List Handed

/-- What a thread does next. -/
inductive Event where
  /-- A worker starts `local_operand` for a token. -/
  | operand (thread : Nat) (domain : Domain) (direction : Direction) (token : OpToken)
  /-- The worker asks for a span. `lookup` and `write` say which `mallctl` calls work. -/
  | cover (thread : Nat) (lookup write : Bool)
  /-- The worker runs another section, and `fi_mr_reg` returns `code` in it. -/
  | step (thread : Nat) (code : Option Int)
  /-- `local_operand` returns. -/
  | ret (thread : Nat)
  /-- A transfer drops its operand's lease. -/
  | dropLease (lease : Nat)
  /-- jemalloc calls a wrapped hook. -/
  | hook (thread : Nat) (reclaim : Reclaim)
  /-- jemalloc calls the own hook of an arena. -/
  | unhooked (thread : Nat) (reclaim : Reclaim)
  /-- A hook runs a section, and a default hook returns `failed` in it. -/
  | resume (thread : Nat) (failed : Bool)
  /-- An arena gets pages. -/
  | map (arena start stop : Nat)

namespace Process

/-- A process that has registered nothing. -/
def start : Process where
  cache := Cache.empty
  postings := fun _ => none
  leases := []
  hookCalls := fun _ => .idle
  owner := fun _ => none
  hooked := ∅
  handed := []

/-- Puts a worker at another place. -/
def setPosting (p : Process) (thread : Nat) (posting : Option Posting) : Process :=
  { p with postings := Function.update p.postings thread posting }

/-- Puts a thread inside jemalloc at another place. -/
def setHook (p : Process) (thread : Nat) (call : HookCall) : Process :=
  { p with hookCalls := Function.update p.hookCalls thread call }

/-- `jemalloc::arena_of`. -/
def arenaOf (p : Process) (lookup : Bool) (pointer : Nat) : Option Nat :=
  if lookup then p.owner pointer else none

/-- `write_extent_hooks`. -/
def writeExtentHooks (p : Process) (write : Bool) (arena : Nat) : Process × Bool :=
  -- A repeated write leaves the hooks as they are.
  if write then ({ p with hooked := insert arena p.hooked }, true) else (p, false)

/-- Hooks the arena backing this operand if it isn't already, and says whether it is now
covered. -/
def ensureCovered (hooks : Hooks) (p : Process) (lookup write : Bool) (pointer : Nat) :
    Process × Bool :=
  if hooks.armed then
    match p.arenaOf lookup pointer with
    | some arena => p.writeExtentHooks write arena
    | none => (p, false)
  else (p, false)

/-- The operand's own extent, cacheable once its arena is hooked. -/
def cacheableSpan (hooks : Hooks) (p : Process) (lookup write : Bool) (token : OpToken) :
    Process × Option CacheableSpan :=
  match bytes token with
  | none => (p, none)
  | some slice =>
    let covered := p.ensureCovered hooks lookup write slice.pointer
    (covered.1, if covered.2 then CacheableSpan.new slice.pointer slice.length else none)

/-- A default hook runs. -/
def runDefault (p : Process) (thread : Nat) (r : Reclaim) (failed : Bool) : Process :=
  { p.setHook thread (.returned (r.result failed)) with
    -- The pages go back to the system, so no arena owns them.
    owner := fun x => if r.unmaps failed ∧ r.start ≤ x ∧ x < r.stop then none else p.owner x
    handed := ⟨r.start, r.stop, p.cache.handles.next⟩ :: p.handed }

/-- One section of a thread inside jemalloc. -/
def stepHook (hooks : Hooks) (p : Process) (thread : Nat) (failed : Bool) : Option Process :=
  match p.hookCalls thread with
  | .idle => none
  | .deregister start stop default =>
    let retired := p.cache.invalidate start stop
    some { p.setHook thread (.retired retired.2 default) with cache := retired.1 }
  | .retired (lease :: leases) default =>
    some { p.setHook thread (.retired leases default) with cache := p.cache.dropLease (some lease) }
  | .retired [] default =>
    -- With no default the hook reports failure, and jemalloc keeps the range.
    some (if default.isIn hooks.default then p.runDefault thread default failed
      else p.setHook thread (.returned (default.result true)))
  | .unhooked default => some (p.runDefault thread default failed)
  | .returned _ => some (p.setHook thread .idle)

/-- The return of `local_operand`: an operand keeps its lease for the transfer. -/
def ret (p : Process) (thread : Nat) : Option Process :=
  match p.postings thread with
  | some ⟨_, _, .done operand⟩ =>
    some { p.setPosting thread none with leases := operand.lease.toList ++ p.leases }
  | some ⟨_, _, .failed _⟩ => some (p.setPosting thread none)
  | _ => none

/-- What a section that runs no `cacheable_span` is told. -/
def answer : Option Int → RegionAnswer
  | some code => .mrReg code
  | none => .none

/-- One event. -/
def step (lib : Libfabric) (requiresLocalMr : Domain → Bool) (hooks : Hooks) (p : Process) :
    Event → Option Process
  | .operand thread domain direction token =>
    match p.postings thread, resolveOperand direction token with
    | none, (.ok (pointer, length), token) =>
      some (p.setPosting thread (some ⟨domain, token,
        if requiresLocalMr domain then .begin pointer length else .done .null⟩))
    | _, _ => none
  | .cover thread lookup write =>
    (p.postings thread).bind fun posting =>
      let asked := p.cacheableSpan hooks lookup write posting.token
      -- The hooks are written even where no span comes of it.
      (posting.call.step lib posting.domain asked.1.cache (.span asked.2)).map fun next =>
        { asked.1.setPosting thread (some { posting with call := next.2 }) with cache := next.1 }
  | .step thread code =>
    (p.postings thread).bind fun posting =>
      (posting.call.step lib posting.domain p.cache (answer code)).map fun next =>
        { p.setPosting thread (some { posting with call := next.2 }) with cache := next.1 }
  | .ret thread => p.ret thread
  | .dropLease lease =>
    if lease ∈ p.leases then
      some { p with leases := p.leases.erase lease, cache := p.cache.dropLease (some lease) }
    else none
  | .hook thread reclaim =>
    match p.hookCalls thread with
    | .idle => some (p.setHook thread (wrapped reclaim))
    | _ => none
  | .unhooked thread reclaim =>
    match p.hookCalls thread with
    | .idle => some (p.setHook thread (.unhooked reclaim))
    | _ => none
  | .resume thread failed => p.stepHook hooks thread failed
  | .map arena start stop =>
    some { p with
      owner := fun x =>
        if start ≤ x ∧ x < stop then (p.owner x).or (some arena) else p.owner x }

end Process

/-- The threads of a process that register operands and reclaim pages. `read` is what
`install` reads from arena 0. -/
def process (lib : Libfabric) (requiresLocalMr : Domain → Bool) (read : Option ExtentHooks) :
    Machine Process Event where
  init p := p = Process.start
  step := Process.step lib requiresLocalMr (install read)

end Vdma.Module.Memory
