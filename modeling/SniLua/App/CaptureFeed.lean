/-
  SniLua.App.CaptureFeed

  The capture feed: threads that decode frames and an application that draws the
  newest one.

  A source shares its latest frame and its stop flag with the thread it started.  A
  source that is replaced tells its thread to stop but does not wait for it: the
  thread may be inside a blocking read of the device, and several threads may be
  running.  The application uploads a frame only if its number is not that of the
  frame in the texture.
-/

import SniLua.Lib.Run

namespace SniLua
namespace App

open Lib

variable {Pixels : Type}

-- ============================================================================
-- The source and its thread
-- ============================================================================

inductive CaptureMode where
  /-- The overlay is drawn on the capture feed. -/
  | composited
  /-- The overlay is drawn in a window of its own. -/
  | streamingOverlay
deriving DecidableEq

def CaptureMode.parse : String → CaptureMode
  | "stream" | "streaming" => .streamingOverlay
  | _ => .composited

/-- Zero is "auto". -/
structure CaptureSettings where
  width : UInt32
  height : UInt32
  fps : UInt32
deriving DecidableEq

/-- The pixels are only carried around. -/
structure CaptureFrame (Pixels : Type) where
  width : UInt32
  height : UInt32
  pixels : Pixels
  seq : Nat

/-- What is uploaded. -/
structure ColorImage (Pixels : Type) where
  size : Nat × Nat
  pixels : Pixels
deriving DecidableEq

def CaptureFrame.image (f : CaptureFrame Pixels) : ColorImage Pixels where
  size := (f.width.toNat, f.height.toNat)
  pixels := f.pixels

/-- Where the thread is in `capture_loop`. -/
inductive CapturePhase where
  /-- It opens the device and starts the stream. -/
  | opening
  /-- Before it looks at the stop flag. -/
  | checking
  /-- Inside `camera.frame()`. -/
  | grabbing
  | exited
deriving DecidableEq

/-- A thread with the two cells it shares with its source. -/
structure CaptureThread (Pixels : Type) where
  deviceIndex : UInt32
  settings : CaptureSettings
  latest : Option (CaptureFrame Pixels)
  stop : Bool
  seq : Nat
  phase : CapturePhase

/-- `CaptureSource::open`. -/
def CaptureThread.open (deviceIndex : UInt32) (settings : CaptureSettings) :
    CaptureThread Pixels where
  deviceIndex
  settings
  latest := none
  stop := false
  seq := 0
  phase := .opening

/-- What a read of the device gives. -/
inductive Grab (Pixels : Type) where
  | image (width height : UInt32) (pixels : Pixels)
  | undecodable
  | failed

inductive ThreadEvent (Pixels : Type) where
  | opened (ok : Bool)
  | check
  | grab (result : Grab Pixels)

/-- The image that is decoded. -/
def ThreadEvent.image? : ThreadEvent Pixels → Option (ColorImage Pixels)
  | .grab (.image width height pixels) =>
      some { size := (width.toNat, height.toNat), pixels }
  | _ => none

/-- A step of `capture_loop`, if the thread is at it. -/
def CaptureThread.act (t : CaptureThread Pixels) :
    ThreadEvent Pixels → Option (CaptureThread Pixels)
  | .opened ok =>
      if t.phase = .opening then some { t with phase := if ok then .checking else .exited }
      else none
  | .check =>
      if t.phase = .checking then some { t with phase := if t.stop then .exited else .grabbing }
      else none
  | .grab result =>
      if t.phase = .grabbing then
        match result with
        | .image width height pixels =>
            let seq := t.seq + 1
            some { t with
              seq, latest := some { width, height, pixels, seq }, phase := .checking }
        | .undecodable | .failed => some { t with phase := .checking }
      else none

/-- A thread stores what it decodes; one that is told to stop enters no further read. -/
theorem CaptureThread.act_cases {t t' : CaptureThread Pixels} {e : ThreadEvent Pixels}
    (h : t.act e = some t') : t'.stop = t.stop ∧
      ((e.image? = none ∧ t'.seq = t.seq ∧ t'.latest = t.latest ∧
          (t.stop = true → t'.phase ≠ .grabbing)) ∨
        t.phase = .grabbing ∧ t'.phase = .checking ∧ ∃ frame, e.image? = some frame.image ∧
          frame.seq = t.seq + 1 ∧ t'.seq = t.seq + 1 ∧ t'.latest = some frame) := by
  cases e with
  | opened ok =>
      simp only [act] at h
      split at h
      · obtain rfl := Option.some.inj h
        exact ⟨rfl, .inl ⟨rfl, rfl, rfl, by cases ok <;> simp⟩⟩
      · cases h
  | check =>
      simp only [act] at h
      split at h
      · obtain rfl := Option.some.inj h
        exact ⟨rfl, .inl ⟨rfl, rfl, rfl, fun hstop => by simp [hstop]⟩⟩
      · cases h
  | grab result =>
      simp only [act] at h
      split at h
      · rename_i hphase
        cases result with
        | image width height pixels =>
            obtain rfl := Option.some.inj h
            exact ⟨rfl, .inr ⟨hphase, rfl, _, rfl, rfl, rfl, rfl⟩⟩
        | undecodable =>
            obtain rfl := Option.some.inj h
            exact ⟨rfl, .inl ⟨rfl, rfl, rfl, by simp⟩⟩
        | failed =>
            obtain rfl := Option.some.inj h
            exact ⟨rfl, .inl ⟨rfl, rfl, rfl, by simp⟩⟩
      · cases h

-- ============================================================================
-- The application
-- ============================================================================

structure CaptureConfig where
  captureMode : String
  captureDevice : UInt32
  captureWidth : UInt32
  captureHeight : UInt32
  captureFps : UInt32

def captureSettings (config : CaptureConfig) : CaptureSettings where
  width := config.captureWidth
  height := config.captureHeight
  fps := config.captureFps

structure CaptureFeed (Pixels : Type) where
  config : CaptureConfig
  /-- Every thread that was started, the oldest first. -/
  threads : List (CaptureThread Pixels)
  /-- The thread of the current source. -/
  capture : Option Nat
  captureTex : Option (ColorImage Pixels)
  captureTexSeq : Nat

namespace CaptureFeed

def captureMode (s : CaptureFeed Pixels) : CaptureMode := .parse s.config.captureMode

/-- `CaptureSource::latest` of the current source. -/
def latest (s : CaptureFeed Pixels) : Option (CaptureFrame Pixels) :=
  s.capture.bind fun g => s.threads[g]?.bind (·.latest)

/-- The drop of the current source. -/
def dropSource (s : CaptureFeed Pixels) : CaptureFeed Pixels :=
  { s with
    threads :=
      match s.capture with
      | some g => s.threads.modify g fun t => { t with stop := true }
      | none => s.threads
    capture := none }

/-- Open the device if the mode is composited. -/
def openSource (s : CaptureFeed Pixels) : CaptureFeed Pixels :=
  if s.captureMode = .composited then
    { s with
      threads := s.threads ++ [.open s.config.captureDevice (captureSettings s.config)]
      capture := some s.threads.length }
  else s

def restartCapture (s : CaptureFeed Pixels) : CaptureFeed Pixels :=
  openSource { s.dropSource with captureTex := none, captureTexSeq := 0 }

/-- `App::new`. -/
def new (config : CaptureConfig) : CaptureFeed Pixels :=
  openSource
    { config, threads := [], capture := none, captureTex := none, captureTexSeq := 0 }

/-- Whether a frame has to be uploaded. -/
def outdated (s : CaptureFeed Pixels) (frame : CaptureFrame Pixels) : Bool :=
  s.captureTex.isNone || frame.seq != s.captureTexSeq

/-- `capture_texture`. -/
def captureTexture (s : CaptureFeed Pixels) : CaptureFeed Pixels × Option (ColorImage Pixels) :=
  match s.latest with
  | none => (s, none)
  | some frame =>
      let s :=
        if s.outdated frame then
          { s with captureTex := some frame.image, captureTexSeq := frame.seq }
        else s
      (s, s.captureTex)

/-- The part of `update` that resolves the feed: the image under the overlay. -/
def draw (s : CaptureFeed Pixels) : CaptureFeed Pixels × Option (ColorImage Pixels) :=
  if s.captureMode = .composited then s.captureTexture else (s, none)

end CaptureFeed

inductive FeedEvent (Pixels : Type) where
  /-- A step of the `g`-th thread. -/
  | thread (g : Nat) (e : ThreadEvent Pixels)
  | draw
  | chooseMode (mode : String)
  | chooseDevice (device : UInt32)
  /-- The drag values; they are not applied. -/
  | editInput (width height fps : UInt32)
  | applyInput
  | autoInput

namespace CaptureFeed

def withInput (s : CaptureFeed Pixels) (width height fps : UInt32) : CaptureFeed Pixels :=
  { s with config := { s.config with
    captureWidth := width, captureHeight := height, captureFps := fps } }

/-- The choices of a device and of its input are shown in composited mode. -/
def step (s : CaptureFeed Pixels) : FeedEvent Pixels → Option (CaptureFeed Pixels)
  | .thread g e => do
      let t ← s.threads[g]?
      let t ← t.act e
      return { s with threads := s.threads.set g t }
  | .draw => some s.draw.1
  | .chooseMode mode =>
      if mode = s.config.captureMode then some s
      else some (restartCapture { s with config := { s.config with captureMode := mode } })
  | .chooseDevice device =>
      if s.config.captureMode ≠ "composited" then none
      else if device = s.config.captureDevice then some s
      else some (restartCapture { s with config := { s.config with captureDevice := device } })
  | .editInput width height fps =>
      if s.config.captureMode ≠ "composited" then none else some (s.withInput width height fps)
  | .applyInput => if s.config.captureMode ≠ "composited" then none else some s.restartCapture
  | .autoInput =>
      if s.config.captureMode ≠ "composited" then none
      else some (s.withInput 0 0 0).restartCapture

/-- What a step does. -/
inductive Moves (s : CaptureFeed Pixels) : FeedEvent Pixels → CaptureFeed Pixels → Prop
  | thread {g : Nat} {e : ThreadEvent Pixels} {t t' : CaptureThread Pixels}
      (ht : s.threads[g]? = some t) (hact : t.act e = some t') :
      Moves s (.thread g e) { s with threads := s.threads.set g t' }
  | draw : Moves s .draw s.draw.1
  /-- The user changes the settings, and the feed goes on. -/
  | edit {e : FeedEvent Pixels} {config : CaptureConfig} (hthread : ∀ g e', e ≠ .thread g e')
      (hdraw : e ≠ .draw) (hmode : config.captureMode = s.config.captureMode) :
      Moves s e { s with config }
  /-- The user changes the settings, and the feed starts anew. -/
  | restart {e : FeedEvent Pixels} {config : CaptureConfig} (hthread : ∀ g e', e ≠ .thread g e')
      (hdraw : e ≠ .draw) : Moves s e (restartCapture { s with config })

theorem moves_of_step {s t : CaptureFeed Pixels} {e : FeedEvent Pixels} (h : s.step e = some t) :
    Moves s e t := by
  cases e with
  | thread g e =>
      obtain ⟨u, hu, v, hv, rfl⟩ : ∃ u, s.threads[g]? = some u ∧ ∃ v, u.act e = some v ∧
          { s with threads := s.threads.set g v } = t := by
        simpa [step, Option.bind_eq_some_iff] using h
      exact .thread hu hv
  | draw =>
      obtain rfl := Option.some.inj h
      exact .draw
  | chooseMode mode =>
      simp only [step] at h
      split at h
      · obtain rfl := Option.some.inj h
        exact .edit (by simp) (by simp) rfl
      · obtain rfl := Option.some.inj h
        exact .restart (by simp) (by simp)
  | chooseDevice device =>
      simp only [step] at h
      split at h
      · cases h
      · split at h
        · obtain rfl := Option.some.inj h
          exact .edit (by simp) (by simp) rfl
        · obtain rfl := Option.some.inj h
          exact .restart (by simp) (by simp)
  | editInput width height fps =>
      simp only [step] at h
      split at h
      · cases h
      · obtain rfl := Option.some.inj h
        exact .edit (by simp) (by simp) rfl
  | applyInput =>
      simp only [step] at h
      split at h
      · cases h
      · obtain rfl := Option.some.inj h
        show Moves s .applyInput (restartCapture { s with config := s.config })
        exact .restart (by simp) (by simp)
  | autoInput =>
      simp only [step] at h
      split at h
      · cases h
      · obtain rfl := Option.some.inj h
        exact .restart (by simp) (by simp)

-- ============================================================================
-- What the threads have decoded
-- ============================================================================

/-- The image the `g`-th thread decodes in a step. -/
def image? (g : Nat) : FeedEvent Pixels → Option (ColorImage Pixels)
  | .thread g' e => if g' = g then e.image? else none
  | _ => none

/-- The images the `g`-th thread has decoded. -/
def decoded (g : Nat) (tr : List (CaptureFeed Pixels × FeedEvent Pixels)) :
    List (ColorImage Pixels) := tr.filterMap fun x => image? g x.2

theorem decoded_snoc (g : Nat) (tr : List (CaptureFeed Pixels × FeedEvent Pixels))
    (s : CaptureFeed Pixels) (e : FeedEvent Pixels) :
    decoded g (tr ++ [(s, e)]) = decoded g tr ++ (image? g e).toList := by
  rw [decoded, List.filterMap_append, ← decoded]
  cases h : image? g e <;> simp [h]

theorem image?_quiet {g : Nat} {e : FeedEvent Pixels} (h : ∀ g e', e ≠ .thread g e') :
    image? g e = none := by
  cases e with
  | thread g e => exact absurd rfl (h g e)
  | _ => rfl

theorem decoded_quiet {g : Nat} {tr : List (CaptureFeed Pixels × FeedEvent Pixels)}
    {s : CaptureFeed Pixels} {e : FeedEvent Pixels} (h : ∀ g e', e ≠ .thread g e') :
    decoded g (tr ++ [(s, e)]) = decoded g tr := by
  rw [decoded_snoc, image?_quiet h, Option.toList_none, List.append_nil]

/-- The source and the number of the frame that a step uploads. -/
def upload (s : CaptureFeed Pixels) : FeedEvent Pixels → Option (Nat × Nat)
  | .draw =>
      if s.captureMode = .composited then do
        let g ← s.capture
        let frame ← s.latest
        if s.outdated frame then some (g, frame.seq) else none
      else none
  | _ => none

/-- The frames uploaded, in order. -/
def uploads (tr : List (CaptureFeed Pixels × FeedEvent Pixels)) : List (Nat × Nat) :=
  tr.filterMap fun x => x.1.upload x.2

/-- A thread holds the last image it has decoded, under the number of images it has
    decoded. -/
structure ThreadOk (images : List (ColorImage Pixels)) (t : CaptureThread Pixels) : Prop where
  seq : t.seq = images.length
  latest : t.latest.map CaptureFrame.image = images.getLast?
  number : ∀ frame, t.latest = some frame → frame.seq = t.seq

theorem threadOk_open (deviceIndex : UInt32) (settings : CaptureSettings) :
    ThreadOk [] (.open deviceIndex settings : CaptureThread Pixels) where
  seq := rfl
  latest := rfl
  number := by simp [CaptureThread.open]

theorem ThreadOk.act {images : List (ColorImage Pixels)} {t t' : CaptureThread Pixels}
    {e : ThreadEvent Pixels} (h : ThreadOk images t) (hact : t.act e = some t') :
    ThreadOk (images ++ e.image?.toList) t' := by
  obtain ⟨-, ⟨himage, hseq, hlatest, -⟩ | ⟨-, -, frame, himage, hnumber, hseq, hlatest⟩⟩ :=
    CaptureThread.act_cases hact
  · refine ⟨?_, ?_, ?_⟩
    · simpa [himage, hseq] using h.seq
    · simpa [himage, hlatest] using h.latest
    · simpa [hseq, hlatest] using h.number
  · refine ⟨?_, ?_, ?_⟩
    · simp [himage, hseq, h.seq]
    · simp [himage, hlatest]
    · intro frame' hframe
      obtain rfl := Option.some.inj (hlatest.symm.trans hframe)
      rw [hnumber, hseq]

-- ============================================================================
-- The texture
-- ============================================================================

/-- The state of the feed after the threads have decoded `images`.  The current source
    is the last one opened, and the texture holds one of its images, under its
    number. -/
structure Fed (images : Nat → List (ColorImage Pixels)) (s : CaptureFeed Pixels) : Prop where
  thread : ∀ g t, s.threads[g]? = some t → ThreadOk (images g) t
  unborn : ∀ g, s.threads.length ≤ g → images g = []
  newest : ∀ g, s.capture = some g → g + 1 = s.threads.length
  texture : ∀ image, s.captureTex = some image → ∃ g, s.capture = some g ∧
    0 < s.captureTexSeq ∧ (images g)[s.captureTexSeq - 1]? = some image

variable {images : Nat → List (ColorImage Pixels)} {s : CaptureFeed Pixels}

theorem length_dropSource (s : CaptureFeed Pixels) :
    s.dropSource.threads.length = s.threads.length := by
  simp only [dropSource]
  split
  · exact List.length_modify ..
  · rfl

theorem getElem?_dropSource (s : CaptureFeed Pixels) (g : Nat) :
    s.dropSource.threads[g]? =
      s.threads[g]?.map fun t => if s.capture = some g then { t with stop := true } else t := by
  simp only [dropSource]
  cases hcapture : s.capture with
  | none => simp
  | some g' =>
      simp only [List.getElem?_modify, Option.some.injEq]
      rfl

theorem Fed.openSource (h : Fed images s) (htex : s.captureTex = none) :
    Fed images s.openSource := by
  simp only [CaptureFeed.openSource]
  split
  · refine ⟨?_, ?_, ?_, ?_⟩
    · intro g t ht
      rcases Nat.lt_trichotomy g s.threads.length with hg | rfl | hg
      · rw [List.getElem?_append_left hg] at ht
        exact h.thread g t ht
      · obtain rfl : CaptureThread.open s.config.captureDevice (captureSettings s.config) = t := by
          simpa using ht
        rw [h.unborn _ (Nat.le_refl _)]
        exact threadOk_open ..
      · rw [List.getElem?_eq_none (by rw [List.length_append, List.length_singleton]; omega)] at ht
        cases ht
    · intro g hg
      exact h.unborn g (by simp only [List.length_append, List.length_singleton] at hg; omega)
    · intro g hg
      obtain rfl := Option.some.inj hg
      simp
    · simp [htex]
  · exact h

theorem Fed.restartCapture (h : Fed images s) : Fed images s.restartCapture := by
  refine Fed.openSource (s := { s.dropSource with captureTex := none, captureTexSeq := 0 })
    ⟨?_, ?_, by simp [dropSource], by simp⟩ rfl
  · intro g t ht
    obtain ⟨u, hu, rfl⟩ := Option.map_eq_some_iff.mp ((s.getElem?_dropSource g).symm.trans ht)
    have hok := h.thread g u hu
    split
    · exact ⟨hok.seq, hok.latest, hok.number⟩
    · exact hok
  · intro g hg
    exact h.unborn g (s.length_dropSource ▸ hg)

/-- The configuration is not looked at. -/
theorem Fed.configure (h : Fed images s) (config : CaptureConfig) :
    Fed images { s with config } := ⟨h.thread, h.unborn, h.newest, h.texture⟩

theorem Fed.act (h : Fed images s) {g : Nat} {e : ThreadEvent Pixels}
    {t t' : CaptureThread Pixels} (ht : s.threads[g]? = some t) (hact : t.act e = some t') :
    Fed (fun g' => images g' ++ (image? g' (.thread g e)).toList)
      { s with threads := s.threads.set g t' } := by
  have hlt : g < s.threads.length := (List.getElem?_eq_some_iff.mp ht).1
  refine ⟨?_, ?_, ?_, ?_⟩
  · intro g' u hu
    by_cases hg : g = g'
    · subst hg
      rw [List.getElem?_set_self hlt] at hu
      obtain rfl := Option.some.inj hu
      simpa [image?] using (h.thread g t ht).act hact
    · rw [List.getElem?_set_ne hg] at hu
      simpa [image?, hg] using h.thread g' u hu
  · intro g' hg'
    rw [List.length_set] at hg'
    have hg : g ≠ g' := by omega
    simpa [image?, hg] using h.unborn g' hg'
  · intro g' hg'
    rw [List.length_set]
    exact h.newest g' hg'
  · intro image himage
    obtain ⟨g', hcapture, hpos, hget⟩ := h.texture image himage
    refine ⟨g', hcapture, hpos, ?_⟩
    rw [List.getElem?_append_left (List.getElem?_eq_some_iff.mp hget).1]
    exact hget

/-- The latest frame is the last image decoded, under its number. -/
theorem Fed.latest (h : Fed images s) {frame : CaptureFrame Pixels}
    (hlatest : s.latest = some frame) :
    ∃ g, s.capture = some g ∧ frame.seq = (images g).length ∧
      (images g).getLast? = some frame.image := by
  obtain ⟨g, hcapture, hlatest⟩ := Option.bind_eq_some_iff.mp hlatest
  obtain ⟨t, ht, hframe⟩ := Option.bind_eq_some_iff.mp hlatest
  have hok := h.thread g t ht
  refine ⟨g, hcapture, (hok.number frame hframe).trans hok.seq, ?_⟩
  rw [← hok.latest, hframe]
  rfl

theorem Fed.no_latest (h : Fed images s) (hlatest : s.latest = none) {g : Nat}
    (hcapture : s.capture = some g) : (images g).getLast? = none := by
  have hlt : g < s.threads.length := by
    have hnewest := h.newest g hcapture
    omega
  have hok := h.thread g _ (List.getElem?_eq_getElem hlt)
  rw [CaptureFeed.latest, hcapture, Option.bind_some, List.getElem?_eq_getElem hlt,
    Option.bind_some] at hlatest
  rw [← hok.latest, hlatest]
  rfl

/-- A frame that is not uploaded is the one in the texture. -/
theorem texture_of_not_outdated {frame : CaptureFrame Pixels} (h : s.outdated frame = false) :
    ∃ image, s.captureTex = some image ∧ frame.seq = s.captureTexSeq := by
  obtain ⟨hsome, hseq⟩ : s.captureTex.isSome = true ∧ frame.seq = s.captureTexSeq := by
    simpa [outdated] using h
  obtain ⟨image, himage⟩ := Option.isSome_iff_exists.mp hsome
  exact ⟨image, himage, hseq⟩

/-- What is drawn is the last image decoded, uploaded now or before. -/
theorem Fed.captureTexture_snd (h : Fed images s) :
    s.captureTexture.2 = s.capture.bind fun g => (images g).getLast? := by
  simp only [captureTexture]
  cases hlatest : s.latest with
  | none =>
      cases hcapture : s.capture with
      | none => rfl
      | some g => exact (h.no_latest hlatest hcapture).symm
  | some frame =>
      obtain ⟨g, hcapture, hseq, hlast⟩ := h.latest hlatest
      rw [hcapture, Option.bind_some, hlast]
      cases hout : s.outdated frame with
      | true => simp only [hout, if_true]
      | false =>
          simp only [hout, Bool.false_eq_true, if_false]
          obtain ⟨image, himage, hkept⟩ := texture_of_not_outdated hout
          obtain ⟨g', hcapture', -, hget⟩ := h.texture image himage
          obtain rfl := Option.some.inj (hcapture.symm.trans hcapture')
          rw [himage, ← hlast, List.getLast?_eq_getElem?, ← hseq, hkept, hget]

/-- A draw uploads the latest frame or leaves the texture alone. -/
theorem draw_cases (s : CaptureFeed Pixels) :
    (s.upload .draw = none ∧ s.draw.1 = s) ∨
      ∃ g frame, s.capture = some g ∧ s.latest = some frame ∧ s.outdated frame = true ∧
        s.upload .draw = some (g, frame.seq) ∧
        s.draw.1 = { s with captureTex := some frame.image, captureTexSeq := frame.seq } := by
  simp only [upload, CaptureFeed.draw]
  split
  · rename_i hmode
    cases hlatest : s.latest with
    | none => exact .inl ⟨by simp, by simp [captureTexture, hlatest]⟩
    | some frame =>
        obtain ⟨g, hcapture, -⟩ := Option.bind_eq_some_iff.mp hlatest
        cases hout : s.outdated frame with
        | true =>
            exact .inr ⟨g, frame, hcapture, rfl, hout, by simp [hcapture, hout],
              by simp [captureTexture, hlatest, hout]⟩
        | false =>
            exact .inl ⟨by simp [hcapture, hout], by simp [captureTexture, hlatest, hout]⟩
  · exact .inl ⟨rfl, rfl⟩

theorem Fed.draw (h : Fed images s) : Fed images s.draw.1 := by
  obtain ⟨-, hdraw⟩ | ⟨g, frame, hcapture, hlatest, -, -, hdraw⟩ := s.draw_cases
  · rw [hdraw]
    exact h
  · rw [hdraw]
    refine ⟨h.thread, h.unborn, h.newest, ?_⟩
    intro image himage
    obtain rfl := Option.some.inj himage
    obtain ⟨g', hcapture', hseq, hlast⟩ := h.latest hlatest
    rw [List.getLast?_eq_getElem?, ← hseq] at hlast
    have hlt := (List.getElem?_eq_some_iff.mp hlast).1
    exact ⟨g', hcapture', by show 0 < frame.seq; omega, hlast⟩

theorem fed_new (config : CaptureConfig) : Fed (fun _ => []) (new config : CaptureFeed Pixels) :=
  Fed.openSource ⟨by simp, by simp, by simp, by simp⟩ rfl

theorem fed_run {config : CaptureConfig} {tr : List (CaptureFeed Pixels × FeedEvent Pixels)}
    {s : CaptureFeed Pixels} (hrun : Run step (new config) tr s) :
    Fed (fun g => decoded g tr) s := by
  refine hrun.trace_invariant (I := fun tr s => Fed (fun g => decoded g tr) s) ?_ (fed_new config)
  intro tr u e v _ ih hs
  cases moves_of_step hs with
  | thread ht hact =>
      simp only [decoded_snoc]
      exact ih.act ht hact
  | draw =>
      simp only [decoded_snoc, image?, Option.toList_none, List.append_nil]
      exact ih.draw
  | edit hthread _ _ =>
      simp only [decoded_quiet hthread]
      exact ih.configure _
  | restart hthread _ =>
      simp only [decoded_quiet hthread]
      exact (ih.configure _).restartCapture

-- ============================================================================
-- Uploads
-- ============================================================================

/-- A later source, or a later frame of the same one. -/
def Before (u v : Nat × Nat) : Prop := u.1 < v.1 ∨ u.1 = v.1 ∧ u.2 < v.2

/-- The uploads so far came in order, and none of the current source is later than the
    texture. -/
structure Uploaded (ups : List (Nat × Nat)) (s : CaptureFeed Pixels) : Prop where
  inOrder : ups.Pairwise Before
  opened : ∀ u ∈ ups, u.1 < s.threads.length
  current : ∀ u ∈ ups, s.capture = some u.1 → s.captureTex.isSome ∧ u.2 ≤ s.captureTexSeq

variable {ups : List (Nat × Nat)}

theorem Uploaded.restartCapture (h : Uploaded ups s) : Uploaded ups s.restartCapture := by
  have hlength := s.length_dropSource
  simp only [CaptureFeed.restartCapture, openSource]
  split
  · refine ⟨h.inOrder, ?_, ?_⟩
    · intro u hu
      have hlt := h.opened u hu
      simp only [List.length_append, List.length_singleton, hlength]
      omega
    · intro u hu hcapture
      have hlt := h.opened u hu
      have heq := Option.some.inj hcapture
      simp only [hlength] at heq
      omega
  · refine ⟨h.inOrder, ?_, by simp [dropSource]⟩
    intro u hu
    simpa only [hlength] using h.opened u hu

/-- The latest frame of the current source is later than all before it. -/
theorem Uploaded.draw (h : Uploaded ups s) (hfed : Fed images s) :
    Uploaded (ups ++ (s.upload .draw).toList) s.draw.1 := by
  obtain ⟨hupload, hdraw⟩ | ⟨g, frame, hcapture, hlatest, hout, hupload, hdraw⟩ := s.draw_cases
  · rw [hupload, hdraw]
    simpa using h
  obtain ⟨g', hcapture', hseq, -⟩ := hfed.latest hlatest
  obtain rfl := Option.some.inj (hcapture.symm.trans hcapture')
  have hnewest := hfed.newest g hcapture
  have hlast : ∀ u ∈ ups, u.1 = g → u.2 < frame.seq := by
    intro u hu hg
    obtain ⟨hsome, hle⟩ := h.current u hu (hcapture.trans (congrArg some hg.symm))
    obtain ⟨image, himage⟩ := Option.isSome_iff_exists.mp hsome
    obtain ⟨g'', hcapture'', -, hget⟩ := hfed.texture image himage
    obtain rfl := Option.some.inj (hcapture.symm.trans hcapture'')
    have hlt := (List.getElem?_eq_some_iff.mp hget).1
    have hne : frame.seq ≠ s.captureTexSeq := by simpa [outdated, himage] using hout
    omega
  rw [hupload, hdraw]
  refine ⟨?_, ?_, ?_⟩
  · rw [Option.toList_some, List.pairwise_append]
    refine ⟨h.inOrder, List.pairwise_singleton _ _, ?_⟩
    intro u hu v hv
    obtain rfl := List.mem_singleton.mp hv
    have hlt := h.opened u hu
    rcases Nat.lt_or_ge u.1 g with hg | hg
    · exact .inl hg
    · have heq : u.1 = g := by omega
      exact .inr ⟨heq, hlast u hu heq⟩
  · intro u hu
    rcases List.mem_append.mp hu with hu | hu
    · exact h.opened u hu
    · obtain rfl := List.mem_singleton.mp hu
      show g < s.threads.length
      omega
  · intro u hu hg
    refine ⟨rfl, ?_⟩
    rcases List.mem_append.mp hu with hu | hu
    · exact Nat.le_of_lt (hlast u hu (Option.some.inj (hg.symm.trans hcapture)))
    · obtain rfl := List.mem_singleton.mp hu
      exact Nat.le_refl _

theorem upload_quiet {e : FeedEvent Pixels} (h : e ≠ .draw) : s.upload e = none := by
  cases e with
  | draw => exact absurd rfl h
  | _ => rfl

theorem uploads_snoc (tr : List (CaptureFeed Pixels × FeedEvent Pixels))
    (s : CaptureFeed Pixels) (e : FeedEvent Pixels) :
    uploads (tr ++ [(s, e)]) = uploads tr ++ (s.upload e).toList := by
  rw [uploads, List.filterMap_append, ← uploads]
  cases h : s.upload e <;> simp [h]

theorem uploaded_run {config : CaptureConfig} {tr : List (CaptureFeed Pixels × FeedEvent Pixels)}
    {s : CaptureFeed Pixels} (hrun : Run step (new config) tr s) : Uploaded (uploads tr) s := by
  refine hrun.trace_invariant (I := fun tr s => Uploaded (uploads tr) s) ?_
    ⟨by simp [uploads], by simp [uploads], by simp [uploads]⟩
  intro tr u e v hrun ih hs
  rw [uploads_snoc]
  cases moves_of_step hs with
  | thread ht hact =>
      simp only [upload, Option.toList_none, List.append_nil]
      exact ⟨ih.inOrder, by simpa using ih.opened, ih.current⟩
  | draw => exact ih.draw (fed_run hrun)
  | edit _ hdraw _ =>
      rw [upload_quiet hdraw, Option.toList_none, List.append_nil]
      exact ⟨ih.inOrder, ih.opened, ih.current⟩
  | restart _ hdraw =>
      rw [upload_quiet hdraw, Option.toList_none, List.append_nil]
      exact Uploaded.restartCapture (s := { u with config := _ })
        ⟨ih.inOrder, ih.opened, ih.current⟩

/-- **The newest frame is drawn.**  Whatever the threads do and whatever the user
    changes, what a draw shows in composited mode is the last image the thread of the
    current source has decoded, as if every frame were uploaded in every draw; a frame
    is uploaded once at most, and none after a later one. -/
theorem feed_shows_latest {config : CaptureConfig}
    {tr : List (CaptureFeed Pixels × FeedEvent Pixels)} {s : CaptureFeed Pixels}
    (hrun : Run step (new config) tr s) :
    (s.draw.2 =
      if s.captureMode = .composited then s.capture.bind fun g => (decoded g tr).getLast?
      else none) ∧ (uploads tr).Pairwise Before := by
  refine ⟨?_, (uploaded_run hrun).inOrder⟩
  simp only [CaptureFeed.draw]
  split
  · exact (fed_run hrun).captureTexture_snd
  · rfl

/-- A frame is drawn twice; then the thread is inside a read. -/
def changeDevice : List (FeedEvent Nat) :=
  [.thread 0 (.opened true), .thread 0 .check, .thread 0 (.grab (.image 2 2 7)), .draw,
   .thread 0 .check, .draw]

/-- The device was changed.  The read ends, and the new device delivers. -/
def newDevice : List (FeedEvent Nat) :=
  [.thread 0 (.grab (.image 2 2 8)), .draw, .thread 1 (.opened true), .thread 1 .check,
   .thread 1 (.grab (.image 4 4 9)), .thread 0 .check, .draw]

def autoConfig : CaptureConfig :=
  { captureMode := "composited", captureDevice := 0, captureWidth := 0, captureHeight := 0,
    captureFps := 0 }

theorem feed_shows_latest_change :
    let s : CaptureFeed Nat :=
      final step (new autoConfig) (changeDevice ++ .chooseDevice 1 :: newDevice)
    let tr := trace step (new autoConfig) (changeDevice ++ .chooseDevice 1 :: newDevice)
    (s.draw.2 = some ⟨(4, 4), 9⟩ ∧ uploads tr = [(0, 1), (1, 1)]) ∧
      (s.draw.2 = if s.captureMode = .composited then
        s.capture.bind fun g => (decoded g tr).getLast? else none) ∧ (uploads tr).Pairwise Before :=
  ⟨by decide +kernel, feed_shows_latest (run_final (by decide +kernel))⟩

-- ============================================================================
-- Sources that are replaced
-- ============================================================================

/-- The `g`-th thread is told to stop, and its source is gone. -/
structure Replaced (g : Nat) (s : CaptureFeed Pixels) : Prop where
  gone : s.capture ≠ some g
  started : g < s.threads.length
  stop : ∀ t, s.threads[g]? = some t → t.stop = true

/-- Whether the `g`-th thread is inside a read of the device. -/
def reading (g : Nat) (s : CaptureFeed Pixels) : Bool :=
  s.threads[g]?.any fun t => t.phase = .grabbing

/-- A restart tells the current thread to stop, and leaves the others alone. -/
theorem getElem?_restartCapture (s : CaptureFeed Pixels) {g : Nat} (hg : g < s.threads.length) :
    s.restartCapture.threads[g]? =
      s.threads[g]?.map fun t => if s.capture = some g then { t with stop := true } else t := by
  rw [← getElem?_dropSource]
  have hlength := s.length_dropSource
  simp only [restartCapture, openSource]
  split
  · exact List.getElem?_append_left (by omega)
  · rfl

theorem replaced_restartCapture {g : Nat} (hg : g < s.threads.length)
    (hstop : s.capture = some g ∨ ∀ t, s.threads[g]? = some t → t.stop = true) :
    Replaced g s.restartCapture := by
  have hlength := s.length_dropSource
  refine ⟨?_, ?_, ?_⟩
  · simp only [restartCapture, openSource]
    split
    · intro heq
      have heq := Option.some.inj heq
      simp only [hlength] at heq
      omega
    · simp [dropSource]
  · simp only [restartCapture, openSource]
    split
    · simp only [List.length_append, List.length_singleton, hlength]
      omega
    · simpa only [hlength] using hg
  · intro t ht
    rw [s.getElem?_restartCapture hg] at ht
    obtain ⟨u, hu, rfl⟩ := Option.map_eq_some_iff.mp ht
    split
    · rfl
    · exact (hstop.resolve_left ‹_›) u hu

theorem reading_restartCapture {g : Nat} (hg : g < s.threads.length) :
    reading g s.restartCapture = reading g s := by
  rw [reading, reading, s.getElem?_restartCapture hg]
  cases s.threads[g]? with
  | none => rfl
  | some t =>
      simp only [Option.map_some, Option.any_some]
      split <;> rfl

/-- A thread that is told to stop decodes the frame it is reading, if any. -/
theorem replaced_step {g : Nat} {t : CaptureFeed Pixels} {e : FeedEvent Pixels}
    (h : Replaced g s) (hs : s.step e = some t) : Replaced g t ∧
      (reading g t).toNat + (image? g e).toList.length ≤ (reading g s).toNat := by
  cases moves_of_step hs with
  | @thread g' e' u v hu hact =>
      obtain ⟨hstop, hcases⟩ := CaptureThread.act_cases hact
      by_cases hg : g' = g
      · subst hg
        have hu' := h.stop u hu
        have hset : (s.threads.set g' v)[g']? = some v := List.getElem?_set_self h.started
        refine ⟨⟨h.gone, by simpa using h.started, ?_⟩, ?_⟩
        · intro w hw
          obtain rfl := Option.some.inj (hset.symm.trans hw)
          rw [hstop, hu']
        · obtain ⟨himage, -, -, hphase⟩ | ⟨hphase, hphase', frame, himage, -⟩ := hcases
          · simp [image?, himage, reading, hset, hphase hu']
          · simp [image?, himage, reading, hset, hu, hphase, hphase']
      · refine ⟨⟨h.gone, by simpa using h.started, ?_⟩, ?_⟩
        · simpa [List.getElem?_set_ne hg] using h.stop
        · simp [image?, hg, reading, List.getElem?_set_ne hg]
  | draw =>
      obtain ⟨-, hdraw⟩ | ⟨g', frame, hcapture, -, -, -, hdraw⟩ := s.draw_cases
      · rw [hdraw]
        exact ⟨h, by simp [image?]⟩
      · rw [hdraw]
        exact ⟨⟨h.gone, h.started, h.stop⟩, by simp [image?, reading]⟩
  | edit hthread _ _ =>
      exact ⟨⟨h.gone, h.started, h.stop⟩, by simp [image?_quiet hthread, reading]⟩
  | @restart _ config hthread _ =>
      refine ⟨replaced_restartCapture (s := { s with config }) h.started (.inr h.stop), ?_⟩
      rw [reading_restartCapture (s := { s with config }) h.started, image?_quiet hthread]
      simp [reading]

/-- Only a restart takes the source away. -/
theorem replaced_of_step {g : Nat} {t : CaptureFeed Pixels} {e : FeedEvent Pixels}
    (hfed : Fed images s) (hcapture : s.capture = some g) (hs : s.step e = some t)
    (hgone : t.capture ≠ some g) : Replaced g t ∧ reading g t = reading g s := by
  have hnewest := hfed.newest g hcapture
  have hlt : g < s.threads.length := by omega
  cases moves_of_step hs with
  | thread ht hact => exact absurd hcapture hgone
  | draw =>
      obtain ⟨-, hdraw⟩ | ⟨g', frame, -, -, -, -, hdraw⟩ := s.draw_cases
      · exact absurd (by rw [hdraw]; exact hcapture) hgone
      · exact absurd (by rw [hdraw]; exact hcapture) hgone
  | edit _ _ _ => exact absurd hcapture hgone
  | @restart _ config _ _ =>
      exact ⟨replaced_restartCapture (s := { s with config }) hlt (.inl hcapture),
        reading_restartCapture (s := { s with config }) hlt⟩

/-- What a draw shows comes from the thread of the current source. -/
theorem Fed.draw_snd (h : Fed images s) {image : ColorImage Pixels}
    (hdraw : s.draw.2 = some image) :
    ∃ g, s.capture = some g ∧ (images g).getLast? = some image := by
  simp only [CaptureFeed.draw] at hdraw
  split at hdraw
  · rw [h.captureTexture_snd] at hdraw
    exact Option.bind_eq_some_iff.mp hdraw
  · cases hdraw

/-- What is uploaded comes from the current source. -/
theorem capture_of_upload {e : FeedEvent Pixels} {v : Nat × Nat} (h : s.upload e = some v) :
    s.capture = some v.1 := by
  by_cases he : e = .draw
  · subst he
    obtain ⟨hnone, -⟩ | ⟨g, frame, hcapture, -, -, hupload, -⟩ := s.draw_cases
    · rw [hnone] at h
      cases h
    · obtain rfl := Option.some.inj (hupload.symm.trans h)
      exact hcapture
  · rw [upload_quiet he] at h
    cases h

/-- The current source was opened after one that is gone. -/
theorem Replaced.lt_of_capture {g g' : Nat} (h : Replaced g s) (hfed : Fed images s)
    (hcapture : s.capture = some g') : g < g' := by
  have hnewest := hfed.newest g' hcapture
  have hstarted := h.started
  have hne : g' ≠ g := fun heq => h.gone (hcapture.trans (congrArg some heq))
  omega

/-- **A replaced source is gone.**  Once another source or none is in its place, what a
    draw shows is the last image of a thread that was started later, and what is uploaded
    is a frame of such a thread, although the old thread may still be inside a read of
    the device; it decodes the frame of that read and no other. -/
theorem replaced_source_stops {config : CaptureConfig}
    {pre later : List (CaptureFeed Pixels × FeedEvent Pixels)} {u t s : CaptureFeed Pixels}
    {e : FeedEvent Pixels} {g : Nat} (hpre : Run step (new config) pre u)
    (hcapture : u.capture = some g) (hs : u.step e = some t) (hgone : t.capture ≠ some g)
    (hrun : Run step t later s) :
    (∀ x ∈ later, x.1.capture ≠ some g) ∧ s.capture ≠ some g ∧
      (∀ image, s.draw.2 = some image → ∃ g', g < g' ∧ s.capture = some g' ∧
        (decoded g' (pre ++ [(u, e)] ++ later)).getLast? = some image) ∧
      (∀ v ∈ uploads later, g < v.1) ∧
      (decoded g later).length ≤ (reading g u).toNat := by
  obtain ⟨hreplaced, hreading⟩ := replaced_of_step (fed_run hpre) hcapture hs hgone
  have hlater := hrun.trace_invariant
    (I := fun tr v => Replaced g v ∧ (∀ x ∈ tr, x.1.capture ≠ some g) ∧
      (∀ v ∈ uploads tr, g < v.1) ∧
      (reading g v).toNat + (decoded g tr).length ≤ (reading g t).toNat) ?_
    ⟨hreplaced, by simp, by simp [uploads], by simp [decoded]⟩
  · obtain ⟨hend, hall, huploads, hcount⟩ := hlater
    rw [hreading] at hcount
    refine ⟨hall, hend.gone, ?_, huploads, by omega⟩
    intro image himage
    have hfed := fed_run ((hpre.snoc hs).trans hrun)
    obtain ⟨g', hcapture', hlast⟩ := hfed.draw_snd himage
    exact ⟨g', hend.lt_of_capture hfed hcapture', hcapture', hlast⟩
  · intro tr v e' w hprefix ih hstep
    obtain ⟨hv, hall, huploads, hcount⟩ := ih
    obtain ⟨hw, hless⟩ := replaced_step hv hstep
    refine ⟨hw, ?_, ?_, ?_⟩
    · intro x hx
      rcases List.mem_append.mp hx with hx | hx
      · exact hall x hx
      · obtain rfl := List.mem_singleton.mp hx
        exact hv.gone
    · intro x hx
      rw [uploads_snoc] at hx
      rcases List.mem_append.mp hx with hx | hx
      · exact huploads x hx
      · have hfed := fed_run ((hpre.snoc hs).trans hprefix)
        exact hv.lt_of_capture hfed (capture_of_upload (Option.mem_toList.mp hx))
    · rw [decoded_snoc, List.length_append]
      omega

theorem replaced_source_stops_reading :
    let u : CaptureFeed Nat := final step (new autoConfig) changeDevice
    let t : CaptureFeed Nat := final step (new autoConfig) (changeDevice ++ [.chooseDevice 1])
    let s := final step t newDevice
    let pre := trace step (new autoConfig) changeDevice
    let later := trace step t newDevice
    ((decoded 0 later).length = 1 ∧ s.draw.2 = some ⟨(4, 4), 9⟩ ∧ uploads later = [(1, 1)]) ∧
      (∀ x ∈ later, x.1.capture ≠ some 0) ∧ s.capture ≠ some 0 ∧
      (∀ image, s.draw.2 = some image → ∃ g', 0 < g' ∧ s.capture = some g' ∧
        (decoded g' (pre ++ [(u, .chooseDevice 1)] ++ later)).getLast? = some image) ∧
      (∀ v ∈ uploads later, 0 < v.1) ∧ (decoded 0 later).length ≤ 1 :=
  have hsome : (exec step (new autoConfig) (changeDevice ++ [.chooseDevice 1])).isSome := by
    decide +kernel
  have hrun := (run_final_concat hsome).of_snoc
  ⟨by decide +kernel, replaced_source_stops hrun.1 (by decide +kernel) hrun.2 (by decide +kernel)
    (run_final (by decide +kernel))⟩

end CaptureFeed

end App
end SniLua
