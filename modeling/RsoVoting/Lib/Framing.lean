import Mathlib.Data.List.Basic

namespace RsoVoting.Framing

/-!
# Texts cut into chunks

A sender writes texts one after the other; a receiver is handed the stream in chunks and
acts on some of them, each chunk by itself.  This file is about receivers that can only act
on a chunk that begins like a text, over any alphabet:

* `Delimited` — a chunk that the receiver acts on cannot begin inside a text, and one that
  begins with a text is that text;
* `filter_sublist` — the chunks acted on are then some of the texts, in their order;
* `chunks_eq_of_length` — and if there are as many of them as texts, the chunks are the
  texts.
-/

variable {α : Type*} {acts : List α → Bool} {isText : List α → Prop}

/-- The receiver acts on whole texts only. -/
structure Delimited (acts : List α → Bool) (isText : List α → Prop) : Prop where
  acts_nil : acts [] = false
  /-- Inside a text begins no chunk that is acted on. -/
  inner : ∀ {w u c r s}, isText (w ++ u) → w ≠ [] → u ≠ [] → acts c = true → c ++ r ≠ u ++ s
  /-- A chunk that is acted on and begins with a text ends with it. -/
  outer : ∀ {t c r} {ts : List (List α)}, isText t → (∀ t' ∈ ts, isText t') → acts c = true →
    c ++ r = t ++ ts.flatten → c = t

/-- What is left of a stream of texts behind a prefix: the rest of a text, which may be
    empty, and further texts. -/
theorem exists_of_append_eq_flatten {texts : List (List α)} (htexts : ∀ t ∈ texts, isText t)
    {l r : List α} (h : l ++ r = texts.flatten) :
    ∃ u texts', r = u ++ texts'.flatten ∧ texts' <:+ texts ∧
      (u = [] ∨ ∃ w, w ≠ [] ∧ isText (w ++ u)) := by
  induction texts generalizing l with
  | nil =>
    obtain ⟨-, rfl⟩ := List.append_eq_nil_iff.mp h
    exact ⟨[], [], rfl, List.suffix_refl _, .inl rfl⟩
  | cons t ts ih =>
    by_cases hl : l = []
    · subst hl
      exact ⟨[], t :: ts, by simpa using h, List.suffix_refl _, .inl rfl⟩
    rw [List.flatten_cons, List.append_eq_append_iff] at h
    -- the prefix ends inside the first text, or goes on behind it
    rcases h with ⟨u, rfl, rfl⟩ | ⟨l', rfl, hrest⟩
    · exact ⟨u, ts, rfl, List.suffix_cons _ ts, .inr ⟨l, hl, htexts _ (by simp)⟩⟩
    · obtain ⟨u, texts', hr, hsuf, hu⟩ := ih (fun t' ht' => htexts t' (by simp [ht'])) hrest.symm
      exact ⟨u, texts', hr, hsuf.trans (List.suffix_cons t ts), hu⟩

/-- **The chunks acted on are texts.**  They are whole texts of the stream, each at most
    once and in the order of the stream. -/
theorem filter_sublist (hD : Delimited acts isText) {chunks texts : List (List α)} {u : List α}
    (htexts : ∀ t ∈ texts, isText t) (hu : u = [] ∨ ∃ w, w ≠ [] ∧ isText (w ++ u))
    (h : chunks.flatten = u ++ texts.flatten) : (chunks.filter acts).Sublist texts := by
  induction chunks generalizing u texts with
  | nil => exact List.nil_sublist _
  | cons c cs ih =>
    rw [List.flatten_cons] at h
    by_cases hc : acts c = true
    · rw [List.filter_cons_of_pos hc]
      -- no chunk that is acted on begins inside a text
      have hu' : u = [] := by
        by_contra hne
        obtain ⟨w, hw, ht⟩ := hu.resolve_left hne
        exact hD.inner ht hw hne hc h
      subst hu'
      cases texts with
      | nil =>
        have hnil : c = [] := (List.append_eq_nil_iff.mp h).1
        simp [hnil, hD.acts_nil] at hc
      | cons t ts =>
        obtain rfl : c = t := hD.outer (htexts t (by simp))
          (fun t' ht' => htexts t' (by simp [ht'])) hc h
        refine List.Sublist.cons_cons c (ih (fun t' ht' => htexts t' (by simp [ht'])) (.inl rfl) ?_)
        simpa using h
    · rw [List.filter_cons_of_neg hc]
      -- an ignored chunk leaves the rest of a text and further texts
      rw [List.append_eq_append_iff] at h
      rcases h with ⟨u', rfl, hrest⟩ | ⟨l, rfl, hrest⟩
      · refine ih htexts ?_ hrest
        rcases hu with hnil | ⟨w, hw, ht⟩
        · exact .inl (List.append_eq_nil_iff.mp hnil).2
        · exact .inr ⟨w ++ c, by simp [hw], by rwa [List.append_assoc]⟩
      · obtain ⟨u', texts', hr, hsuf, hu'⟩ := exists_of_append_eq_flatten htexts hrest.symm
        exact (ih (fun t ht => htexts t (hsuf.subset ht)) hu' hr).trans hsuf.sublist

private theorem length_flatten_filter_le (p : List α → Bool) (chunks : List (List α)) :
    (chunks.filter p).flatten.length ≤ chunks.flatten.length := by
  induction chunks with
  | nil => simp
  | cons c cs ih =>
    rw [List.filter_cons]
    split <;> simp only [List.flatten_cons, List.length_append] <;> omega

/-- If no length is lost by dropping non-empty lists, none has been dropped. -/
private theorem filter_eq_self_of_length {p : List α → Bool} {chunks : List (List α)}
    (hne : ∀ c ∈ chunks, c ≠ [])
    (h : (chunks.filter p).flatten.length = chunks.flatten.length) : chunks.filter p = chunks := by
  induction chunks with
  | nil => rfl
  | cons c cs ih =>
    have hle := length_flatten_filter_le p cs
    have hpos : 0 < c.length := List.length_pos_iff.mpr (hne c (by simp))
    by_cases hc : p c = true
    · rw [List.filter_cons_of_pos hc] at h ⊢
      rw [ih (fun c' hc' => hne c' (by simp [hc'])) (by simpa using h)]
    · rw [List.filter_cons_of_neg hc] at h
      -- a dropped chunk takes its length with it
      simp only [List.flatten_cons, List.length_append] at h
      omega

/-- **Acting on every text.**  If the receiver acts on as many of the chunks as texts were
    sent, the chunks are the texts. -/
theorem chunks_eq_of_length (hD : Delimited acts isText) {chunks texts : List (List α)}
    (htexts : ∀ t ∈ texts, isText t) (hne : ∀ c ∈ chunks, c ≠ [])
    (h : chunks.flatten = texts.flatten) (hlen : (chunks.filter acts).length = texts.length) :
    chunks = texts := by
  have hfilter : chunks.filter acts = texts :=
    (filter_sublist hD (u := []) htexts (.inl rfl) h).eq_of_length hlen
  rw [← hfilter]
  refine (filter_eq_self_of_length hne ?_).symm
  rw [hfilter, h]

end RsoVoting.Framing
