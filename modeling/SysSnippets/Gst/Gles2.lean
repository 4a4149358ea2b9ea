import SysSnippets.Lib.Machine
import SysSnippets.Gst.Sink

/-!
# The `gles2` sink of `gst-simple`: two threads and their globals

The streaming thread runs `setcaps` and `render` (`gles2.c`), and each `setup` starts a thread that runs
`gles2_thread` (`gles2util.c`). They share `img_ptr`, `img_h`, `img_w` and `gles2_sem`. Each access to a global
is a step of its own, and a schedule is a list of steps of all threads.

* `StreamPc`, `GlPc` : where a thread stands;
* `State.streamNext`, `GlPc.next` : what its next step does;
* `gles2` : the machine, which runs any schedule.
-/

namespace SysSnippets.Gst.Gles2
open SysSnippets.Lib

/-- The streaming thread, by what it does next. -/
inductive StreamPc
  | idle
  /-- `img_h = height` -/
  | storeH (caps : Caps)
  /-- `img_w = width` -/
  | storeW (caps : Caps)
  /-- `posix_memalign` -/
  | allocate
  /-- `gles2_sem = 0` -/
  | clearSem
  /-- `pthread_create` -/
  | createThread
  /-- `g_atomic_int_compare_and_exchange(&gles2_sem, 0, 1)` -/
  | exchange (buffer : Buffer)
  /-- `memcpy` into `img_ptr` -/
  | copy (buffer : Buffer)
  /-- `g_atomic_int_set(&gles2_sem, 2)` -/
  | post

/-- A thread that runs `gles2_thread`. -/
inductive GlPc
  /-- everything before the first `update_texture` -/
  | shaders
  /-- in `update_texture`, with what it has loaded of `img_w`, `img_h` and `img_ptr` for `glTexImage2D` -/
  | update (first : Bool) (w h : Option U32) (ptr : Option Nat)
  /-- in `glTexImage2D`, which reads the image -/
  | texImage (first : Bool) (w h : U32) (ptr : Nat)
  /-- `g_atomic_int_set(&gles2_sem, 0)` -/
  | release
  /-- in `main_loop`, before `g_atomic_int_compare_and_exchange(&gles2_sem, 2, 3)` -/
  | loop
  | ended

structure State where
  imgH : U32
  imgW : U32
  /-- the size of the allocation that `img_ptr` points to; 0 for NULL -/
  imgPtr : Nat
  gles2Sem : Nat
  stream : StreamPc
  gl : List GlPc

def State.zero : State := ⟨0, 0, 0, 0, .idle, []⟩

/-- The next step of the streaming thread; `ok` is the result of `posix_memalign` and `pthread_create`. -/
def State.streamNext (s : State) (ok : Bool) : State :=
  match s.stream with
  | .idle => s
  | .storeH caps => { s with imgH := caps.height, stream := .storeW caps }
  | .storeW caps => { s with imgW := caps.width, stream := .allocate }
  | .allocate =>
      if ok then { s with imgPtr := (s.imgH * s.imgW * 4).toNat, stream := .clearSem }
      else { s with stream := .idle }
  | .clearSem => { s with gles2Sem := 0, stream := .createThread }
  | .createThread => { s with gl := if ok then s.gl ++ [.shaders] else s.gl, stream := .idle }
  | .exchange buffer =>
      if s.gles2Sem = 0 then { s with gles2Sem := 1, stream := .copy buffer } else { s with stream := .idle }
  | .copy _ => { s with stream := .post }
  | .post => { s with gles2Sem := 2, stream := .idle }

inductive GlAct
  | shaders (ok : Bool)
  | loadW
  | loadH
  | loadPtr
  /-- `glTexImage2D` is called -/
  | texImage
  /-- `glTexImage2D` returns -/
  | texDone
  | exchange
  | release
  /-- `main_loop` returns -/
  | quit
  deriving DecidableEq

/-- A step of a thread that runs `gles2_thread`: where it stands then, and `gles2_sem`. -/
def GlPc.next (s : State) : GlPc → GlAct → GlPc × Nat
  | .shaders, .shaders ok => (if ok then .update true none none none else .ended, s.gles2Sem)
  | .update first none h ptr, .loadW => (.update first (some s.imgW) h ptr, s.gles2Sem)
  | .update first w none ptr, .loadH => (.update first w (some s.imgH) ptr, s.gles2Sem)
  | .update first w h none, .loadPtr => (.update first w h (some s.imgPtr), s.gles2Sem)
  | .update first (some w) (some h) (some ptr), .texImage => (.texImage first w h ptr, s.gles2Sem)
  | .texImage first _ _ _, .texDone => (if first then .loop else .release, s.gles2Sem)
  | .release, .release => (.loop, 0)
  | .loop, .exchange => if s.gles2Sem = 2 then (.update false none none none, 3) else (.loop, s.gles2Sem)
  | .loop, .quit => (.ended, s.gles2Sem)
  | pc, _ => (pc, s.gles2Sem)

inductive Step
  | setcaps (caps : Caps)
  | render (buffer : Buffer)
  | stream (ok : Bool)
  | gl (k : Nat) (act : GlAct)

def State.next (s : State) : Step → State
  | .setcaps caps => match s.stream with
    | .idle => { s with stream := .storeH caps }
    | _ => s
  | .render buffer => match s.stream with
    | .idle => { s with stream := .exchange buffer }
    | _ => s
  | .stream ok => s.streamNext ok
  | .gl k act => match s.gl[k]? with
    | none => s
    | some pc => { s with gl := s.gl.set k (pc.next s act).1, gles2Sem := (pc.next s act).2 }

/-- Any schedule. -/
def gles2 : Machine State Step Unit := ⟨fun s i => (s.next i, [])⟩

/-- The steps of a `setcaps` in which all calls succeed. -/
def setup (caps : Caps) : List Step :=
  [.setcaps caps, .stream true, .stream true, .stream true, .stream true, .stream true]

theorem run_setup (caps : Caps) : (gles2.run .zero (setup caps)).1 =
    ⟨caps.height, caps.width, (caps.height * caps.width * 4).toNat, 0, .idle, [.shaders]⟩ := rfl

end SysSnippets.Gst.Gles2
