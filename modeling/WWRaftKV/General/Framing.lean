/-
Frames in a stream that arrives in chunks.

A reader keeps what it has not used in a buffer.  It takes whole frames off the front and
hands them over one by one, and it waits when the next frame is not complete.  The handler
of a frame may also end the round, with whole frames left in the buffer.
-/
import Mathlib.Data.List.Infix

namespace WWRaftKV

namespace Framing

variable {α σ δ : Type}

/-! ## Frames -/

/-- The buffer holds the start of the next frame, and no more. -/
def Waits : List (List α) → List α → Prop
  | [], b => b = []
  | f :: _, b => b <+: f ∧ b.length < f.length

/-- The frames that lie within the first `n` elements of the stream. -/
def wholeFrames : List (List α) → Nat → List (List α)
  | [], _ => []
  | f :: fs, n => if f.length ≤ n then f :: wholeFrames fs (n - f.length) else []

theorem wholeFrames_isPrefix (fs : List (List α)) (n : Nat) : wholeFrames fs n <+: fs := by
  induction fs generalizing n with
  | nil => exact List.prefix_refl _
  | cons f fs ih =>
    rw [wholeFrames]
    split
    · exact List.prefix_cons_inj f |>.mpr (ih _)
    · exact List.nil_prefix

/-- The whole frames of a stream are followed by the start of the next one. -/
theorem waits_wholeFrames {fs : List (List α)} {b : List α} (hb : b <+: fs.flatten) :
    ∃ fs' p, fs = wholeFrames fs b.length ++ fs' ∧ b = (wholeFrames fs b.length).flatten ++ p ∧
      Waits fs' p := by
  induction fs generalizing b with
  | nil => exact ⟨[], [], rfl, List.prefix_nil.mp hb, rfl⟩
  | cons f fs ih =>
    rw [List.flatten_cons] at hb
    rw [wholeFrames]
    by_cases hf : f.length ≤ b.length
    · rw [if_pos hf]
      obtain ⟨c, rfl⟩ := List.prefix_of_prefix_length_le (List.prefix_append _ _) hb hf
      obtain ⟨fs', p, hfs, hc, hp⟩ := ih ((List.prefix_append_right_inj f).mp hb)
      have hlen : (f ++ c).length - f.length = c.length := by
        rw [List.length_append]
        omega
      rw [hlen]
      refine ⟨fs', p, ?_, ?_, hp⟩
      · rw [List.cons_append, ← hfs]
      · rw [List.flatten_cons, List.append_assoc, ← hc]
    · rw [if_neg hf]
      refine ⟨f :: fs, b, rfl, rfl, ?_, by omega⟩
      exact List.prefix_of_prefix_length_le hb (List.prefix_append _ _) (by omega)

/-- A whole stream waits for nothing. -/
theorem Waits.eq_nil {fs : List (List α)} (h : Waits fs fs.flatten) : fs = [] := by
  cases fs with
  | nil => rfl
  | cons f fs =>
    have hlt := h.2
    rw [List.flatten_cons, List.length_append] at hlt
    omega

/-- More frames make no difference to what the buffer waits for. -/
theorem Waits.append {fs gs : List (List α)} {b : List α} (h : Waits fs b)
    (hgs : ∀ g ∈ gs, g ≠ []) : Waits (fs ++ gs) b := by
  cases fs with
  | cons f fs => exact h
  | nil =>
    obtain rfl : b = [] := h
    cases gs with
    | nil => rfl
    | cons g gs =>
      exact ⟨List.nil_prefix, List.length_pos_of_ne_nil (hgs g List.mem_cons_self)⟩

theorem wholeFrames_flatten (fs : List (List α)) : wholeFrames fs fs.flatten.length = fs := by
  obtain ⟨fs', p, hfs, hb, hp⟩ := waits_wholeFrames (List.prefix_refl fs.flatten)
  generalize wholeFrames fs fs.flatten.length = w at hfs hb ⊢
  subst hfs
  rw [List.flatten_append] at hb
  obtain rfl := List.append_cancel_left hb
  rw [hp.eq_nil, List.append_nil]

/-- The whole frames of a longer start of the stream. -/
theorem wholeFrames_append {fs' : List (List α)} (w : List (List α)) (n : Nat) :
    wholeFrames (w ++ fs') (w.flatten.length + n) = w ++ wholeFrames fs' n := by
  induction w with
  | nil => simp
  | cons f w ih =>
    have hle : f.length ≤ (f :: w).flatten.length + n := by
      rw [List.flatten_cons, List.length_append]
      omega
    have hsub : (f :: w).flatten.length + n - f.length = w.flatten.length + n := by
      rw [List.flatten_cons, List.length_append]
      omega
    rw [List.cons_append, wholeFrames, if_pos hle, hsub, ih]
    rfl

/-! ## Readers -/

/-- The state after the frames. -/
def run (handle : σ → List α → σ × Bool) (s : σ) (fs : List (List α)) : σ :=
  fs.foldl (fun s f => (handle s f).1) s

section Run

variable {handle : σ → List α → σ × Bool} {s : σ}

@[simp] theorem run_nil : run handle s [] = s := rfl

@[simp] theorem run_cons {f : List α} {fs : List (List α)} :
    run handle s (f :: fs) = run handle (handle s f).1 fs := rfl

theorem run_append {fs gs : List (List α)} :
    run handle s (fs ++ gs) = run handle (run handle s fs) gs :=
  List.foldl_append

/-- The last of these frames has ended a round. -/
def Stopped (handle : σ → List α → σ × Bool) (s : σ) (fs : List (List α)) : Prop :=
  ∃ pre f, fs = pre ++ [f] ∧ (handle (run handle s pre) f).2 = false

theorem Stopped.append {fs gs : List (List α)} (h : Stopped handle (run handle s fs) gs) :
    Stopped handle s (fs ++ gs) := by
  obtain ⟨pre, f, rfl, hf⟩ := h
  refine ⟨fs ++ pre, f, (List.append_assoc fs pre [f]).symm, ?_⟩
  rw [run_append]
  exact hf

end Run

/-- `read` is one round over a buffer: it takes the frames in order, until the next one is
not complete or the handler ends the round. -/
structure Reads (Frame : List α → Prop) (handle : σ → List α → σ × Bool)
    (read : σ → List α → Option (σ × List α)) : Prop where
  nonempty : ∀ f, Frame f → f ≠ []
  empty : ∀ s, read s [] = some (s, [])
  wait : ∀ s f p, Frame f → p <+: f → p.length < f.length → read s p = some (s, p)
  next : ∀ s f rest, Frame f → (handle s f).2 = true →
    read s (f ++ rest) = read (handle s f).1 rest
  stop : ∀ s f rest, Frame f → (handle s f).2 = false →
    read s (f ++ rest) = some ((handle s f).1, rest)

/-- The rounds over the chunks, each put behind what is left in the buffer. -/
def feed (read : σ → List α → Option (σ × List α)) :
    σ → List α → List (List α) → Option (σ × List α)
  | s, buffer, [] => some (s, buffer)
  | s, buffer, chunk :: chunks => do
    let (s, buffer) ← read s (buffer ++ chunk)
    feed read s buffer chunks

section Reads

variable {Frame : List α → Prop} {handle : σ → List α → σ × Bool}
  {read : σ → List α → Option (σ × List α)} {s : σ} {fs : List (List α)} {b : List α}

theorem feed_append (cs ds : List (List α)) :
    feed read s b (cs ++ ds) = (feed read s b cs).bind fun x => feed read x.1 x.2 ds := by
  induction cs generalizing s b with
  | nil => rfl
  | cons c cs ih =>
    simp only [List.cons_append, feed, Option.bind_eq_bind, Option.bind_assoc]
    congr 1
    funext x
    exact ih

/-! ## Rounds that no frame ends -/

/-- One round over a buffer that starts a stream of frames. -/
theorem Reads.read_wholeFrames (h : Reads Frame handle read) (hfs : ∀ f ∈ fs, Frame f)
    (hgo : ∀ s, ∀ f ∈ fs, (handle s f).2 = true) (hb : b <+: fs.flatten) :
    read s b = some (run handle s (wholeFrames fs b.length),
      b.drop (wholeFrames fs b.length).flatten.length) := by
  induction fs generalizing s b with
  | nil =>
    obtain rfl := List.prefix_nil.mp hb
    exact h.empty s
  | cons f fs ih =>
    have hf := hfs f List.mem_cons_self
    rw [List.flatten_cons] at hb
    rw [wholeFrames]
    by_cases hle : f.length ≤ b.length
    · rw [if_pos hle]
      obtain ⟨c, rfl⟩ := List.prefix_of_prefix_length_le (List.prefix_append _ _) hb hle
      have hlen : (f ++ c).length - f.length = c.length := by
        rw [List.length_append]
        omega
      rw [hlen, h.next s f c hf (hgo s f List.mem_cons_self),
        ih (fun g hg => hfs g (List.mem_cons_of_mem _ hg))
          (fun s g hg => hgo s g (List.mem_cons_of_mem _ hg))
          ((List.prefix_append_right_inj f).mp hb)]
      rw [List.flatten_cons, List.length_append, ← List.drop_drop, List.drop_left]
      rfl
    · rw [if_neg hle]
      exact h.wait s f b hf
        (List.prefix_of_prefix_length_le hb (List.prefix_append _ _) (by omega)) (by omega)

/-- After every chunk the frames that are complete have been handled, and the buffer holds
what there is of the next one. -/
theorem Reads.feed_wholeFrames (h : Reads Frame handle read) (hfs : ∀ f ∈ fs, Frame f)
    (hgo : ∀ s, ∀ f ∈ fs, (handle s f).2 = true) (cs : List (List α))
    (hcs : cs.flatten <+: fs.flatten) :
    feed read s [] cs = some (run handle s (wholeFrames fs cs.flatten.length),
      cs.flatten.drop (wholeFrames fs cs.flatten.length).flatten.length) := by
  induction cs using List.reverseRecOn with
  | nil =>
    obtain ⟨fs', p, _, hb, _⟩ := waits_wholeFrames (List.nil_prefix : [] <+: fs.flatten)
    have hnil := (List.append_eq_nil_iff.mp hb.symm).1
    have hrun : wholeFrames fs ([] : List α).length = [] := by
      cases hw : wholeFrames fs ([] : List α).length with
      | nil => rfl
      | cons f w =>
        have hmem : f ∈ fs := by
          apply (wholeFrames_isPrefix fs ([] : List α).length).subset
          rw [hw]
          exact List.mem_cons_self
        rw [hw, List.flatten_cons] at hnil
        exact absurd (List.append_eq_nil_iff.mp hnil).1 (h.nonempty f (hfs f hmem))
    rw [List.flatten_nil, hrun]
    rfl
  | append_singleton cs c ih =>
    rw [List.flatten_append, List.flatten_singleton] at hcs
    have hcs' := (List.prefix_append cs.flatten c).trans hcs
    obtain ⟨fs', p, hsplit, hb, hp⟩ := waits_wholeFrames hcs'
    rw [feed_append, ih hcs', List.flatten_append, List.flatten_singleton]
    generalize wholeFrames fs cs.flatten.length = w at hsplit hb
    subst hsplit
    rw [hb, List.append_assoc] at hcs
    rw [hb, List.drop_left, List.append_assoc]
    have hpc : p ++ c <+: fs'.flatten := by
      rw [List.flatten_append] at hcs
      exact (List.prefix_append_right_inj w.flatten).mp hcs
    have hread := h.read_wholeFrames (s := run handle s w)
      (fun f hf => hfs f (List.mem_append_right _ hf))
      (fun s f hf => hgo s f (List.mem_append_right _ hf)) hpc
    simp only [Option.bind_some, feed, hread, Option.bind_eq_bind]
    generalize p ++ c = q
    have hlen : (w.flatten ++ q).length = w.flatten.length + q.length := List.length_append
    rw [hlen, wholeFrames_append, run_append, List.flatten_append, List.length_append,
      ← List.drop_drop, List.drop_left]

/-! ## Rounds that a frame may end -/

/-- One round: some frames are handled, and what is left waits for more bytes unless the
last of these frames has ended the round. -/
theorem Reads.read_frames (h : Reads Frame handle read) (hfs : ∀ f ∈ fs, Frame f)
    (hb : b <+: fs.flatten) :
    ∃ gs fs' b', fs = gs ++ fs' ∧ b = gs.flatten ++ b' ∧
      read s b = some (run handle s gs, b') ∧ (Waits fs' b' ∨ Stopped handle s gs) := by
  induction fs generalizing s b with
  | nil =>
    obtain rfl := List.prefix_nil.mp hb
    exact ⟨[], [], [], rfl, rfl, h.empty s, .inl rfl⟩
  | cons f fs ih =>
    have hf := hfs f List.mem_cons_self
    rw [List.flatten_cons] at hb
    by_cases hle : f.length ≤ b.length
    · obtain ⟨c, rfl⟩ := List.prefix_of_prefix_length_le (List.prefix_append _ _) hb hle
      cases hgo : (handle s f).2 with
      | true =>
        obtain ⟨gs, fs', b', hsplit, hc, hread, hend⟩ := ih (s := (handle s f).1)
          (fun g hg => hfs g (List.mem_cons_of_mem _ hg))
          ((List.prefix_append_right_inj f).mp hb)
        refine ⟨f :: gs, fs', b', by rw [hsplit]; rfl, ?_, ?_, ?_⟩
        · rw [List.flatten_cons, List.append_assoc, ← hc]
        · rw [h.next s f c hf hgo, hread]
          rfl
        · apply hend.imp_right
          intro hstop
          obtain ⟨pre, g, rfl, hg⟩ := hstop
          exact ⟨f :: pre, g, rfl, hg⟩
      | false =>
        refine ⟨[f], fs, c, rfl, by simp, h.stop s f c hf hgo, .inr ⟨[], f, rfl, hgo⟩⟩
    · have hp := List.prefix_of_prefix_length_le hb (List.prefix_append _ _) (by omega)
      exact ⟨[], f :: fs, b, rfl, rfl, h.wait s f b hf hp (by omega), .inl ⟨hp, by omega⟩⟩

/-- All rounds over a stream: a first part of the frames is handled, and it is all of them
unless its last frame has ended a round. -/
theorem Reads.feed_frames (h : Reads Frame handle read) (hfs : ∀ f ∈ fs, Frame f)
    (cs : List (List α)) (hcs : b ++ cs.flatten = fs.flatten)
    (hb : Waits fs b ∨ Stopped handle s []) :
    ∃ gs fs' b', fs = gs ++ fs' ∧ feed read s b cs = some (run handle s gs, b') ∧
      (fs' = [] ∨ Stopped handle s gs) := by
  have hgen : ∀ done, (Waits fs b ∨ Stopped handle s done) → ∃ gs fs' b', fs = gs ++ fs' ∧
      feed read (run handle s done) b cs = some (run handle s (done ++ gs), b') ∧
        (fs' = [] ∨ Stopped handle s (done ++ gs)) := by
    clear hb
    induction cs generalizing b fs with
    | nil =>
      intro done hd
      rw [List.flatten_nil, List.append_nil] at hcs
      refine ⟨[], fs, b, rfl, by rw [List.append_nil]; rfl, ?_⟩
      rw [List.append_nil]
      apply hd.imp_left
      intro hw
      rw [hcs] at hw
      exact hw.eq_nil
    | cons c cs ih =>
      intro done _
      rw [List.flatten_cons, ← List.append_assoc] at hcs
      obtain ⟨gs, fs', b', rfl, hc, hread, hend⟩ := h.read_frames (s := run handle s done) hfs
        (b := b ++ c) ⟨cs.flatten, hcs⟩
      have hrest : b' ++ cs.flatten = fs'.flatten := by
        rw [hc, List.flatten_append, List.append_assoc] at hcs
        exact List.append_cancel_left hcs
      obtain ⟨gs', fs'', b'', rfl, hfeed, hend'⟩ := ih
        (fun f hf => hfs f (List.mem_append_right _ hf)) hrest (done ++ gs)
        (hend.imp_right Stopped.append)
      refine ⟨gs ++ gs', fs'', b'', (List.append_assoc gs gs' fs'').symm, ?_, ?_⟩
      · rw [feed, hread]
        simp only [Option.bind_eq_bind, Option.bind_some]
        rw [← run_append, hfeed, List.append_assoc]
      · rw [← List.append_assoc]
        exact hend'
  obtain ⟨gs, fs', b', hsplit, hfeed, hend⟩ := hgen [] hb
  exact ⟨gs, fs', b', hsplit, hfeed, hend⟩

/-- Every frame in a chunk of its own: all frames are handled. -/
theorem Reads.feed_each (h : Reads Frame handle read) (hfs : ∀ f ∈ fs, Frame f) :
    feed read s [] fs = some (run handle s fs, []) := by
  induction fs generalizing s with
  | nil => rfl
  | cons f fs ih =>
    have hf := hfs f List.mem_cons_self
    have hread : read s f = some ((handle s f).1, []) := by
      have hnext := h.next s f [] hf
      have hstop := h.stop s f [] hf
      rw [List.append_nil] at hnext hstop
      cases hgo : (handle s f).2 with
      | true => rw [hnext hgo, h.empty]
      | false => exact hstop hgo
    simp only [feed, List.nil_append, hread, Option.bind_eq_bind, Option.bind_some]
    exact ih fun g hg => hfs g (List.mem_cons_of_mem _ hg)

/-- The outcome does not depend on how the stream is cut exactly when the frames behind
one that ends a round make no difference. -/
theorem Reads.chunking_iff (h : Reads Frame handle read) (hfs : ∀ f ∈ fs, Frame f)
    (out : σ → δ) :
    (∀ cs ds, cs.flatten = fs.flatten → ds.flatten = fs.flatten →
      (feed read s [] cs).map (fun x => out x.1) =
        (feed read s [] ds).map fun x => out x.1) ↔
    ∀ pre f post, fs = pre ++ f :: post → (handle (run handle s pre) f).2 = false →
      out (run handle s fs) = out (run handle s (pre ++ [f])) := by
  have hstart : Waits fs [] ∨ Stopped handle s [] := by
    left
    cases fs with
    | nil => rfl
    | cons f fs =>
      exact ⟨List.nil_prefix, List.length_pos_of_ne_nil (h.nonempty f (hfs f List.mem_cons_self))⟩
  constructor
  · rintro hall pre f post rfl hstop
    -- the frames before `f` one by one, and the rest at once
    have hmany := hall (pre ++ f :: post) (pre ++ [(f :: post).flatten]) rfl (by simp)
    have hpre := h.feed_each (s := s) fun g hg => hfs g (List.mem_append_left _ hg)
    have hf : Frame f := hfs f (List.mem_append_right _ List.mem_cons_self)
    have hlast : read (run handle s pre) (f :: post).flatten =
        some ((handle (run handle s pre) f).1, post.flatten) := by
      rw [List.flatten_cons]
      exact h.stop _ f _ hf hstop
    rw [h.feed_each hfs, feed_append, hpre] at hmany
    simp only [Option.map_some, Option.bind_some, feed, List.nil_append, hlast,
      Option.bind_eq_bind, Option.some.injEq] at hmany
    rw [hmany, run_append]
    rfl
  · intro hout
    have hcut : ∀ cs, cs.flatten = fs.flatten →
        (feed read s [] cs).map (fun x => out x.1) = some (out (run handle s fs)) := by
      intro cs hcs
      obtain ⟨gs, fs', b', rfl, hfeed, hend⟩ := h.feed_frames hfs cs hcs hstart
      rw [hfeed, Option.map_some]
      congr 1
      rcases hend with rfl | ⟨pre, f, rfl, hstop⟩
      · rw [List.append_nil]
      · exact (hout pre f fs' (List.append_assoc _ _ _) hstop).symm
    intro cs ds hcs hds
    rw [hcut cs hcs, hcut ds hds]

/-! ## Outcomes that grow -/

/-- A frame is quiet when it leaves the state alone; any other one adds to the outcome.
Frames add nothing exactly when all of them are quiet. -/
theorem run_eq_self_iff {out : σ → List δ} {q : σ → List α → Prop}
    (hquiet : ∀ s f, q s f → (handle s f).1 = s)
    (hloud : ∀ s f, ¬ q s f → ∃ x, out (handle s f).1 = out s ++ [x]) :
    out (run handle s fs) = out s ↔ ∀ f ∈ fs, q s f := by
  have hgrows : ∀ fs s, out s <+: out (run handle s fs) := by
    intro fs
    induction fs with
    | nil => exact fun s => List.prefix_refl _
    | cons f fs ih =>
      intro s
      apply List.IsPrefix.trans _ (ih (handle s f).1)
      by_cases hf : q s f
      · rw [hquiet s f hf]
      · obtain ⟨x, hx⟩ := hloud s f hf
        rw [hx]
        apply List.prefix_append
  constructor
  · intro hsame
    induction fs with
    | nil => exact fun f hf => absurd hf List.not_mem_nil
    | cons f fs ih =>
      have hf : q s f := by
        by_contra hf
        obtain ⟨x, hx⟩ := hloud s f hf
        have hle := (hgrows fs (handle s f).1).length_le
        rw [← run_cons, hsame, hx, List.length_append, List.length_singleton] at hle
        omega
      rw [run_cons, hquiet s f hf] at hsame
      intro g hg
      rcases List.mem_cons.mp hg with rfl | hg
      · exact hf
      · exact ih hsame g hg
  · intro hall
    induction fs with
    | nil => rfl
    | cons f fs ih =>
      rw [run_cons, hquiet s f (hall f List.mem_cons_self)]
      exact ih fun g hg => hall g (List.mem_cons_of_mem _ hg)

/-- For an outcome that grows: the cut makes no difference exactly when only quiet frames
follow one that ends a round. -/
theorem Reads.chunking_quiet_iff (h : Reads Frame handle read) (hfs : ∀ f ∈ fs, Frame f)
    {out : σ → List δ} {q : σ → List α → Prop}
    (hquiet : ∀ s f, q s f → (handle s f).1 = s)
    (hloud : ∀ s f, ¬ q s f → ∃ x, out (handle s f).1 = out s ++ [x]) :
    (∀ cs ds, cs.flatten = fs.flatten → ds.flatten = fs.flatten →
      (feed read s [] cs).map (fun x => out x.1) =
        (feed read s [] ds).map fun x => out x.1) ↔
    ∀ pre f post, fs = pre ++ f :: post → (handle (run handle s pre) f).2 = false →
      ∀ g ∈ post, q (handle (run handle s pre) f).1 g := by
  rw [h.chunking_iff hfs out]
  have hsplit : ∀ pre f post, out (run handle s (pre ++ f :: post)) =
      out (run handle s (pre ++ [f])) ↔ ∀ g ∈ post, q (handle (run handle s pre) f).1 g := by
    intro pre f post
    rw [run_append, run_append, run_cons, run_cons, run_nil]
    exact run_eq_self_iff hquiet hloud
  constructor
  · rintro hout pre f post rfl hstop
    exact (hsplit pre f post).mp (hout pre f post rfl hstop)
  · rintro hout pre f post rfl hstop
    exact (hsplit pre f post).mpr (hout pre f post rfl hstop)

end Reads

end Framing

end WWRaftKV
