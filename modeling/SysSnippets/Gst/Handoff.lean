import SysSnippets.Gst.Gles2

/-!
# Who may touch the image of the `gles2` sink

`gles2_sem` is 1 while `render` has the image and 3 while `main_loop` has it. The first `update_texture` of
`gles2_thread` asks nobody.

* `Handing` : the invariant of `gles2_sem`, one GL thread, no further `setcaps`;
* `handoff_iff` : the image is never copied to and read at once, exactly if the first `glTexImage2D` keeps out
  of the renders' way.
-/

namespace SysSnippets.Gst.Gles2
open SysSnippets.Lib

/-- Between a successful exchange 0 → 1 and the set to 2. -/
def StreamPc.owns : StreamPc → Bool
  | .copy _ | .post => true
  | _ => false

def StreamPc.settingUp : StreamPc → Bool
  | .storeH _ | .storeW _ | .allocate | .clearSem | .createThread => true
  | _ => false

/-- The image is being read. -/
def GlPc.reads : GlPc → Bool
  | .texImage _ _ _ _ => true
  | _ => false

/-- Between a successful exchange 2 → 3 and the set to 0. -/
def GlPc.owns : GlPc → Bool
  | .update false _ _ _ | .texImage false _ _ _ | .release => true
  | _ => false

/-- The image is not read while a render has it. -/
def State.Exclusive (s : State) : Prop := s.stream.owns = true → ∀ pc ∈ s.gl, pc.reads = false

def Step.isSetcaps : Step → Bool
  | .setcaps _ => true
  | _ => false

def StreamPc.exchanges : StreamPc → Bool
  | .exchange _ => true
  | _ => false

/-- In the first `glTexImage2D`. -/
def GlPc.readsFirst : GlPc → Bool
  | .texImage true _ _ _ => true
  | _ => false

/-- About to call the first `glTexImage2D`. -/
def GlPc.callsFirst : GlPc → Bool
  | .update true (some _) (some _) (some _) => true
  | _ => false

theorem eq_update_of_callsFirst {pc : GlPc} (h : pc.callsFirst = true) :
    ∃ w h ptr, pc = .update true (some w) (some h) (some ptr) := by
  unfold GlPc.callsFirst at h
  split at h
  · exact ⟨_, _, _, rfl⟩
  · cases h

/-- The condition on a step: an exchange 0 → 1 succeeds only while the first `glTexImage2D` is not running, and
that is called only while no render has the image. -/
def State.HandsOff (s : State) : Step → Prop
  | .stream _ => s.stream.exchanges = true → s.gles2Sem = 0 → ∀ pc ∈ s.gl, pc.readsFirst = false
  | .gl k act => act = .texImage → ∀ pc ∈ s.gl[k]?, pc.callsFirst = true → s.stream.owns = false
  | _ => True

instance (s : State) : DecidablePred s.HandsOff
  | .stream _ => inferInstanceAs (Decidable (_ → _ → ∀ pc ∈ s.gl, _))
  | .gl k _ => inferInstanceAs (Decidable (_ → ∀ pc ∈ s.gl[k]?, _ → _))
  | .setcaps _ | .render _ => isTrue trivial

instance (s : State) : Decidable s.Exclusive := inferInstanceAs (Decidable (_ → ∀ pc ∈ s.gl, _))

/-- The state of `gles2_sem` by where the two threads stand. -/
structure Handing (s : State) (pc : GlPc) : Prop where
  gl : s.gl = [pc]
  settled : s.stream.settingUp = false
  one : s.stream.owns = true ↔ s.gles2Sem = 1
  three : pc.owns = true ↔ s.gles2Sem = 3
  apart : s.stream.owns = true → pc.reads = false

/-- What a step of the GL thread can be. -/
inductive GlMove (s : State) (pc : GlPc) (act : GlAct) : GlPc × Nat → Prop
  | stays (pc' : GlPc) (howns : pc'.owns = pc.owns) (hreads : pc'.reads = true → pc.reads = true) :
      GlMove s pc act (pc', s.gles2Sem)
  | reads (first : Bool) (w h : U32) (ptr : Nat) (hpc : pc = .update first (some w) (some h) (some ptr))
      (hact : act = .texImage) : GlMove s pc act (.texImage first w h ptr, s.gles2Sem)
  | takes (hpc : pc = .loop) (hsem : s.gles2Sem = 2) : GlMove s pc act (.update false none none none, 3)
  | gives (hpc : pc = .release) : GlMove s pc act (.loop, 0)

theorem glMove (s : State) (pc : GlPc) (act : GlAct) : GlMove s pc act (pc.next s act) := by
  unfold GlPc.next
  split
  · split
    · exact .stays _ rfl id
    · exact .stays _ rfl id
  · rename_i first h ptr
    exact .stays _ (by cases first <;> rfl) id
  · rename_i first w ptr
    exact .stays _ (by cases first <;> rfl) id
  · rename_i first w h
    exact .stays _ (by cases first <;> rfl) id
  · exact .reads _ _ _ _ rfl rfl
  · rename_i first w h ptr
    cases first
    · exact .stays _ rfl (fun hreads => rfl)
    · exact .stays _ rfl (fun hreads => rfl)
  · exact .gives rfl
  · split
    · exact .takes rfl ‹_›
    · exact .stays _ rfl id
  · exact .stays _ rfl id
  · exact .stays _ rfl id

section Step
variable {s : State} {pc : GlPc}

theorem Handing.exclusive (h : Handing s pc) : s.Exclusive := by
  intro howns
  rw [h.gl, List.forall_mem_singleton]
  exact h.apart howns

theorem Handing.stream (h : Handing s pc) (ok : Bool) (hoff : s.HandsOff (.stream ok)) :
    Handing (s.streamNext ok) pc := by
  obtain ⟨hgl, hsettled, hone, hthree, hapart⟩ := h
  unfold State.streamNext
  cases hstream : s.stream with
  | storeH caps => simp [hstream, StreamPc.settingUp] at hsettled
  | storeW caps => simp [hstream, StreamPc.settingUp] at hsettled
  | allocate => simp [hstream, StreamPc.settingUp] at hsettled
  | clearSem => simp [hstream, StreamPc.settingUp] at hsettled
  | createThread => simp [hstream, StreamPc.settingUp] at hsettled
  | idle => exact ⟨hgl, hsettled, hone, hthree, hapart⟩
  | exchange buffer =>
      dsimp only
      split_ifs with hsem
      · -- the exchange succeeds: the GL thread does not own the image, and its first read is not running
        have hfirst : pc.readsFirst = false :=
          hoff (by rw [hstream]; rfl) hsem pc (by rw [hgl]; exact List.mem_singleton_self pc)
        rw [hsem] at hthree
        have hfree : ¬pc.owns = true := fun howns => absurd (hthree.1 howns) (by decide)
        refine ⟨hgl, rfl, iff_of_true rfl rfl, ?_, fun _ => ?_⟩
        · exact iff_of_false hfree (show ¬(1 : Nat) = 3 by decide)
        · cases pc with
          | texImage first w h ptr =>
              cases first with
              | false => exact absurd rfl hfree
              | true => cases hfirst
          | _ => rfl
      · rw [hstream] at hone
        exact ⟨hgl, rfl, hone, hthree, fun howns => nomatch howns⟩
  | copy buffer =>
      rw [hstream] at hone hapart
      exact ⟨hgl, rfl, hone, hthree, hapart⟩
  | post =>
      rw [hstream] at hone
      have hsem := hone.1 rfl
      rw [hsem] at hthree
      have hfree : ¬pc.owns = true := fun howns => absurd (hthree.1 howns) (by decide)
      refine ⟨hgl, rfl, ?_, ?_, fun howns => nomatch howns⟩
      · exact iff_of_false Bool.false_ne_true (show ¬(2 : Nat) = 1 by decide)
      · exact iff_of_false hfree (show ¬(2 : Nat) = 3 by decide)

theorem Handing.glStep (h : Handing s pc) (act : GlAct) (hoff : s.HandsOff (.gl 0 act)) :
    Handing { s with gl := [(pc.next s act).1], gles2Sem := (pc.next s act).2 } (pc.next s act).1 := by
  obtain ⟨hgl, hsettled, hone, hthree, hapart⟩ := h
  have hmove := glMove s pc act
  generalize pc.next s act = r at hmove
  cases hmove with
  | stays pc' howns hreads =>
      rw [← howns] at hthree
      refine ⟨rfl, hsettled, hone, hthree, fun hrender => ?_⟩
      have := hapart hrender
      by_contra hne
      rw [hreads (by simpa using hne)] at this
      cases this
  | reads first w h ptr hpc hact =>
      subst hpc hact
      cases first with
      | true =>
          have hrender : s.stream.owns = false := hoff rfl _ (by rw [hgl]; rfl) rfl
          refine ⟨rfl, hsettled, hone, hthree, fun howns => ?_⟩
          have howns : s.stream.owns = true := howns
          rw [hrender] at howns
          cases howns
      | false =>
          refine ⟨rfl, hsettled, hone, hthree, fun howns => ?_⟩
          have hone := hone.1 howns
          rw [hthree.1 rfl] at hone
          exact absurd hone (by decide)
  | takes hpc hsem =>
      subst hpc
      refine ⟨rfl, hsettled, ?_, iff_of_true rfl rfl, fun _ => rfl⟩
      rw [hsem] at hone
      exact iff_of_false (fun howns => absurd (hone.1 howns) (by decide)) (show ¬(3 : Nat) = 1 by decide)
  | gives hpc =>
      subst hpc
      refine ⟨rfl, hsettled, ?_, iff_of_false Bool.false_ne_true (show ¬(0 : Nat) = 3 by decide), fun _ => rfl⟩
      rw [hthree.1 rfl] at hone
      exact iff_of_false (fun howns => absurd (hone.1 howns) (by decide)) (show ¬(0 : Nat) = 1 by decide)

/-- **The step lemma.** -/
theorem Handing.step (h : Handing s pc) {i : Step} (hi : i.isSetcaps = false) (hoff : s.HandsOff i) :
    ∃ pc', Handing (s.next i) pc' := by
  cases i with
  | setcaps caps => cases hi
  | render buffer =>
      refine ⟨pc, ?_⟩
      obtain ⟨hgl, hsettled, hone, hthree, hapart⟩ := h
      unfold State.next
      dsimp only
      split
      · rename_i hstream
        rw [hstream] at hone
        exact ⟨hgl, rfl, hone, hthree, fun howns => nomatch howns⟩
      · exact ⟨hgl, hsettled, hone, hthree, hapart⟩
  | stream ok => exact ⟨pc, h.stream ok hoff⟩
  | gl k act =>
      unfold State.next
      dsimp only
      rw [h.gl]
      cases k with
      | zero => exact ⟨_, h.glStep act hoff⟩
      | succ k => exact ⟨pc, h⟩

/-- A step that the condition excludes does the harm at once. -/
theorem Handing.exclusive_iff (h : Handing s pc) {i : Step} (hi : i.isSetcaps = false) :
    (s.next i).Exclusive ↔ s.HandsOff i := by
  constructor
  · intro hexclusive
    cases i with
    | setcaps caps => cases hi
    | render buffer => trivial
    | stream ok =>
        intro hexchanges hsem pc hmem
        cases hstream : s.stream with
        | exchange buffer =>
            have hnext : s.next (.stream ok) = { s with gles2Sem := 1, stream := .copy buffer } := by
              show s.streamNext ok = _
              unfold State.streamNext
              rw [hstream]
              exact if_pos hsem
            rw [hnext] at hexclusive
            have hreads := hexclusive rfl pc hmem
            cases pc with
            | texImage first w h ptr => cases hreads
            | _ => rfl
        | _ =>
            rw [hstream] at hexchanges
            cases hexchanges
    | gl k act =>
        rintro rfl pc hk hcalls
        have hk : s.gl[k]? = some pc := hk
        obtain ⟨w, hh, ptr, rfl⟩ := eq_update_of_callsFirst hcalls
        have hnext : s.next (.gl k .texImage) =
            { s with gl := s.gl.set k (.texImage true w hh ptr), gles2Sem := s.gles2Sem } := by
          unfold State.next
          dsimp only
          rw [hk]
          rfl
        rw [hnext] at hexclusive
        by_contra howns
        have hlt : k < s.gl.length := (List.getElem?_eq_some_iff.1 hk).1
        cases hexclusive (by simpa using howns) _ (List.mem_set hlt _)
  · intro hoff
    obtain ⟨pc', h'⟩ := h.step hi hoff
    exact h'.exclusive

end Step

/-- **The hand-off.** After a `setcaps` on a new sink, in any schedule of renders and of the GL thread. -/
theorem handoff_iff (caps : Caps) (is : List Step) (his : ∀ i ∈ is, i.isSetcaps = false) :
    (∀ m ∈ gles2.moments (gles2.run .zero (setup caps)).1 is, (m.1.next m.2).Exclusive) ↔
      ∀ m ∈ gles2.moments (gles2.run .zero (setup caps)).1 is, m.1.HandsOff m.2 := by
  rw [← every_const, ← every_const]
  refine Machine.every_moments_iff (A := fun i => i.isSetcaps = false) (I := fun _ s => ∃ pc, Handing s pc)
    ?_ ?_ ?_ his
  · rw [run_setup]
    refine ⟨.shaders, rfl, rfl, ?_, ?_, fun howns => nomatch howns⟩
    · exact iff_of_false Bool.false_ne_true (show ¬(0 : Nat) = 1 by decide)
    · exact iff_of_false Bool.false_ne_true (show ¬(0 : Nat) = 3 by decide)
  · rintro _ s i hi ⟨pc, h⟩ hoff
    exact h.step hi hoff
  · rintro _ s i hi ⟨pc, h⟩
    exact h.exclusive_iff hi

/-- One image is shown after the first `update_texture`. -/
def politely (buffer : Buffer) : List Step :=
  [.gl 0 (.shaders true), .gl 0 .loadW, .gl 0 .loadH, .gl 0 .loadPtr, .gl 0 .texImage, .gl 0 .texDone,
    .render buffer, .stream true, .stream true, .stream true,
    .gl 0 .exchange, .gl 0 .loadW, .gl 0 .loadH, .gl 0 .loadPtr, .gl 0 .texImage, .gl 0 .texDone, .gl 0 .release]

def smallCaps : Caps := ⟨16, 16, sixteen_range, sixteen_range⟩

def black : Buffer := ⟨List.replicate 1024 0, black_size⟩

theorem handoff_iff_politely :
    (∀ m ∈ gles2.moments (gles2.run .zero (setup smallCaps)).1 (politely black), m.1.HandsOff m.2) ∧
      ∀ m ∈ gles2.moments (gles2.run .zero (setup smallCaps)).1 (politely black), (m.1.next m.2).Exclusive := by
  have hoff : ∀ m ∈ gles2.moments (gles2.run .zero (setup smallCaps)).1 (politely black), m.1.HandsOff m.2 := by decide
  exact ⟨hoff, (handoff_iff smallCaps (politely black) (by decide)).2 hoff⟩

/-- A render arrives during the first `glTexImage2D`. -/
theorem not_exclusive_first : ¬∀ m ∈ gles2.moments (gles2.run .zero (setup smallCaps)).1
      [.gl 0 (.shaders true), .gl 0 .loadW, .gl 0 .loadH, .gl 0 .loadPtr, .gl 0 .texImage, .render black, .stream true],
    (m.1.next m.2).Exclusive := by
  decide

end SysSnippets.Gst.Gles2
