import Rkvdec.Bitstream.SegmentHeader

/-! Two parsers that read the same. The one that stores nothing says what the bits are, and the
other one is followed against it. -/
namespace Rkvdec.Bitstream

section Rules

variable {σ τ α β α' β' γ : Type} {P : σ → Prop} {p : Parser σ α} {q : Parser τ β}
  {f : α → Parser σ α'} {g : β → Parser τ β'} {R : α → β → σ → Prop} {S : α' → β' → σ → Prop}

/-- Where `p` returns from a result with `P`, `q` returns from any, with the reader at the same
place, and what they return is related. -/
def Mirrors (P : σ → Prop) (p : Parser σ α) (q : Parser τ β) (R : α → β → σ → Prop) : Prop :=
  ∀ s t br a s' br', P s → exec p s br = ((.ok a, s'), br') →
    ∃ b t', exec q t br = ((.ok b, t'), br') ∧ R a b s'

/-- The same without the place of the reader, for the end of a parser that reads on. -/
def Reports (P : σ → Prop) (p : Parser σ α) (q : Parser τ β) (R : α → β → σ → Prop) : Prop :=
  ∀ s t br a s' br', P s → exec p s br = ((.ok a, s'), br') →
    ∃ b t' br'', exec q t br = ((.ok b, t'), br'') ∧ R a b s'

theorem exec_bind_of_ok {t t' : τ} {b : β} {br br' : BitReader}
    (h : exec q t br = ((.ok b, t'), br')) :
    exec (q >>= g) t br = exec (g b) t' br' := by
  rw [exec_bind, h]

theorem Mirrors.bind (hp : Mirrors P p q R) (hf : ∀ a b, Mirrors (R a b) (f a) (g b) S) :
    Mirrors P (p >>= f) (q >>= g) S := by
  intro s t br a s' br' hs hexec
  obtain ⟨a₁, s₁, br₁, hfirst, hrest⟩ := exec_bind_ok hexec
  obtain ⟨b₁, t₁, hmirror, hR⟩ := hp s t br a₁ s₁ br₁ hs hfirst
  obtain ⟨b, t', hlast, hS⟩ := hf a₁ b₁ s₁ t₁ br₁ a s' br' hR hrest
  exact ⟨b, t', (exec_bind_of_ok hmirror).trans hlast, hS⟩

theorem Reports.bind (hp : Mirrors P p q R) (hf : ∀ a b, Reports (R a b) (f a) (g b) S) :
    Reports P (p >>= f) (q >>= g) S := by
  intro s t br a s' br' hs hexec
  obtain ⟨a₁, s₁, br₁, hfirst, hrest⟩ := exec_bind_ok hexec
  obtain ⟨b₁, t₁, hmirror, hR⟩ := hp s t br a₁ s₁ br₁ hs hfirst
  obtain ⟨b, t', br'', hlast, hS⟩ := hf a₁ b₁ s₁ t₁ br₁ a s' br' hR hrest
  exact ⟨b, t', br'', (exec_bind_of_ok hmirror).trans hlast, hS⟩

/-- Both read the same and go on with it. -/
theorem Mirrors.bind_same {q : Parser τ α} {g : α → Parser τ β'}
    (hp : Mirrors P p q fun a b s => a = b ∧ P s) (hf : ∀ a, Mirrors P (f a) (g a) S) :
    Mirrors P (p >>= f) (q >>= g) S := by
  refine hp.bind fun a b => ?_
  rintro s t br c s' br' ⟨rfl, hs⟩
  exact hf a s t br c s' br' hs

theorem Reports.bind_same {q : Parser τ α} {g : α → Parser τ β'}
    (hp : Mirrors P p q fun a b s => a = b ∧ P s) (hf : ∀ a, Reports P (f a) (g a) S) :
    Reports P (p >>= f) (q >>= g) S := by
  refine Reports.bind hp fun a b => ?_
  rintro s t br c s' br' ⟨rfl, hs⟩
  exact hf a s t br c s' br' hs

/-- A fact that is known of what was read. -/
theorem Mirrors.pre {c : Prop} (h : c → Mirrors P p q R) : Mirrors (fun s => P s ∧ c) p q R := by
  rintro s t br a s' br' ⟨hs, hc⟩
  exact h hc s t br a s' br' hs

theorem Reports.pre {c : Prop} (h : c → Reports P p q R) : Reports (fun s => P s ∧ c) p q R := by
  rintro s t br a s' br' ⟨hs, hc⟩
  exact h hc s t br a s' br' hs

/-- The fact is all that is known. -/
theorem Reports.given {c : Prop} (h : c → Reports (fun _ => True) p q R) :
    Reports (fun _ => c) p q R :=
  fun s t br a s' br' hc hexec => h hc s t br a s' br' trivial hexec

theorem Mirrors.get_bind {f : σ → Parser σ α} (h : ∀ s, P s → Mirrors P (f s) q R) :
    Mirrors P (get >>= f) q R := by
  intro s t br a s' br' hs hexec
  rw [exec_bind, exec_get] at hexec
  exact h s hs s t br a s' br' hs hexec

theorem Reports.get_bind {f : σ → Parser σ α} (h : ∀ s, P s → Reports P (f s) q R) :
    Reports P (get >>= f) q R := by
  intro s t br a s' br' hs hexec
  rw [exec_bind, exec_get] at hexec
  exact h s hs s t br a s' br' hs hexec

theorem Mirrors.reports (h : Mirrors P p q R) : Reports P p q R := by
  intro s t br a s' br' hs hexec
  obtain ⟨b, t', hmirror, hR⟩ := h s t br a s' br' hs hexec
  exact ⟨b, t', br', hmirror, hR⟩

/-- What is known of the result of the one that is followed. -/
theorem Mirrors.and_gives {Q : α → σ → Prop} (h : Mirrors P p q R) (hQ : Gives P p Q) :
    Mirrors P p q fun a b s => R a b s ∧ Q a s := by
  intro s t br a s' br' hs hexec
  obtain ⟨b, t', hmirror, hR⟩ := h s t br a s' br' hs hexec
  exact ⟨b, t', hmirror, hR, hQ s br a s' br' hs hexec⟩

/-- The other one has ended. -/
theorem reports_pure {b : β} {Q : α → σ → Prop} (h : Gives P p Q) (hQ : ∀ a s, Q a s → R a b s) :
    Reports P p (pure b : Parser τ β) R := by
  intro s t br a s' br' hs hexec
  exact ⟨b, t, br, rfl, hQ a s' (h s br a s' br' hs hexec)⟩

theorem Mirrors.pure_bind {c : α'} {f : α' → Parser σ α} (h : Mirrors P (f c) q R) :
    Mirrors P (pure c >>= f) q R := h

/-- A store has nothing to match it. -/
theorem Mirrors.modify_bind {h : σ → σ} {f : PUnit → Parser σ α} {Q : σ → Prop}
    (hP : ∀ s, P s → Q (h s)) (hf : Mirrors Q (f ⟨⟩) q R) : Mirrors P (modify h >>= f) q R := by
  intro s t br a s' br' hs hexec
  rw [exec_bind, exec_modify] at hexec
  exact hf (h s) t br a s' br' (hP s hs) hexec

theorem Reports.modify_bind {h : σ → σ} {f : PUnit → Parser σ α} {Q : σ → Prop}
    (hP : ∀ s, P s → Q (h s)) (hf : Reports Q (f ⟨⟩) q R) : Reports P (modify h >>= f) q R := by
  intro s t br a s' br' hs hexec
  rw [exec_bind, exec_modify] at hexec
  exact hf (h s) t br a s' br' (hP s hs) hexec

/-- The value is put into another form at the end. -/
theorem Mirrors.pure_right {g : β → β'} {R : α → β' → σ → Prop} {Q : α → β → σ → Prop}
    (h : Mirrors P p q Q) (hQ : ∀ a b s, Q a b s → R a (g b) s) :
    Mirrors P p (q >>= fun b => pure (g b)) R := by
  intro s t br a s' br' hs hexec
  obtain ⟨b, t', hmirror, hb⟩ := h s t br a s' br' hs hexec
  exact ⟨g b, t', (exec_bind_of_ok hmirror).trans rfl, hQ a b s' hb⟩

theorem Mirrors.pure_left {f : α → α'} {R : α' → β → σ → Prop} {Q : α → β → σ → Prop}
    (h : Mirrors P p q Q) (hQ : ∀ a b s, Q a b s → R (f a) b s) :
    Mirrors P (p >>= fun a => pure (f a)) q R := by
  intro s t br a s' br' hs hexec
  obtain ⟨a₁, s₁, br₁, hfirst, hlast⟩ := exec_bind_ok hexec
  cases hlast
  obtain ⟨b, t', hmirror, hb⟩ := h s t br a₁ s' br' hs hfirst
  exact ⟨b, t', hmirror, hQ a₁ b s' hb⟩

theorem Mirrors.mono {R' : α → β → σ → Prop} (h : Mirrors P p q R)
    (hR : ∀ a b s, R a b s → R' a b s) :
    Mirrors P p q R' := by
  intro s t br a s' br' hs hexec
  obtain ⟨b, t', hmirror, hb⟩ := h s t br a s' br' hs hexec
  exact ⟨b, t', hmirror, hR a b s' hb⟩

theorem Mirrors.cond {c : Prop} [Decidable c] {p' : Parser σ α} {q' : Parser τ β}
    (hp : c → Mirrors P p q R) (hq : ¬c → Mirrors P p' q' R) :
    Mirrors P (if c then p else p') (if c then q else q') R := by
  split
  · exact hp ‹_›
  · exact hq ‹_›

theorem Reports.cond {c : Prop} [Decidable c] {p' : Parser σ α} {q' : Parser τ β}
    (hp : c → Reports P p q R) (hq : ¬c → Reports P p' q' R) :
    Reports P (if c then p else p') (if c then q else q') R := by
  split
  · exact hp ‹_›
  · exact hq ‹_›

/-- What follows an `if` stands at the end of both branches. -/
theorem Reports.cond_both {c : Prop} [Decidable c] {p' : Parser σ α} {q' : Parser τ β}
    (hq : Reports P p' q' R) (hp : Reports P p' q' R → Reports P p q R) :
    Reports P (if c then p else p') (if c then q else q') R := by
  split
  · exact hp hq
  · exact hq

theorem Reports.cond_left {c : Prop} [Decidable c] {p' : Parser σ α} (hp : c → Reports P p q R)
    (hq : ¬c → Reports P p' q R) : Reports P (if c then p else p') q R := by
  split
  · exact hp ‹_›
  · exact hq ‹_›

theorem Reports.cond_left_both {c : Prop} [Decidable c] {p' : Parser σ α} (hq : Reports P p' q R)
    (hp : Reports P p' q R → Reports P p q R) : Reports P (if c then p else p') q R :=
  Reports.cond_left (fun _ => hp hq) fun _ => hq

theorem reports_throw {R' : α' → β → σ → Prop} (e : ParseError) :
    Reports P (throw e >>= f) q R' := by
  intro s t br a s' br' hs hexec
  rw [exec_bind, exec_throw] at hexec
  cases hexec

theorem Reports.pure_bind {c : α'} {f : α' → Parser σ α} (h : Reports P (f c) q R) :
    Reports P (pure c >>= f) q R := h

theorem mirrors_pure {a : α} {b : β} (h : ∀ s, P s → R a b s) :
    Mirrors P (pure a : Parser σ α) (pure b : Parser τ β) R := by
  intro s t br a' s' br' hs hexec
  cases hexec
  exact ⟨b, t, rfl, h s hs⟩

theorem mirrors_ask (op : ReadOp) : Mirrors P (ask op : Parser σ op.Ans) (ask op : Parser τ op.Ans)
    fun a b s => a = b ∧ P s := by
  intro s t br a s' br' hs hexec
  rw [exec_ask] at hexec
  cases hexec
  exact ⟨_, t, exec_ask op t br, rfl, hs⟩

theorem mirrors_brU (n : Nat) : Mirrors P (brU n : Parser σ Nat) (brU n : Parser τ Nat)
    fun a b s => a = b ∧ P s := mirrors_ask (.u n)

theorem mirrors_brUe :
    Mirrors P (brUe : Parser σ Nat) (brUe : Parser τ Nat) fun a b s => a = b ∧ P s :=
  mirrors_ask .ue

theorem mirrors_flag :
    Mirrors P (flag : Parser σ Bool) (flag : Parser τ Bool) fun a b s => a = b ∧ P s := by
  refine Mirrors.bind (mirrors_brU 1) fun a b => mirrors_pure ?_
  rintro s ⟨rfl, hs⟩
  exact ⟨rfl, hs⟩

theorem mirrors_brSe :
    Mirrors P (brSe : Parser σ Int) (brSe : Parser τ Int) fun a b s => a = b ∧ P s := by
  refine Mirrors.bind mirrors_brUe fun a b => mirrors_pure ?_
  rintro s ⟨rfl, hs⟩
  exact ⟨rfl, hs⟩

theorem mirrors_brMoreRbspData :
    Mirrors P (brMoreRbspData : Parser σ Bool) (brMoreRbspData : Parser τ Bool)
    fun a b s => a = b ∧ P s := mirrors_ask .moreRbspData

/-- A flag and what it stores. -/
theorem Mirrors.flag_store {store : Bool → Parser σ PUnit}
    (hstore : ∀ b s br r s' br', P s → exec (store b) s br = ((.ok r, s'), br') → br' = br ∧ P s') :
    Mirrors P (flag >>= store) (flag : Parser τ Bool) fun _ _ => P := by
  intro s t br a s' br' hs hexec
  obtain ⟨b, s₁, br₁, hfirst, hlast⟩ := exec_bind_ok hexec
  obtain ⟨b', t', hmirror, rfl, hs₁⟩ := mirrors_flag s t br b s₁ br₁ hs hfirst
  obtain ⟨rfl, hs'⟩ := hstore b s₁ br₁ a s' br' hs₁ hlast
  exact ⟨b, t', hmirror, hs'⟩

/-- A parser that never gives up. -/
def Total (q : Parser τ β) : Prop := ∀ t br, ∃ b t' br', exec q t br = ((.ok b, t'), br')

theorem Total.bind (hq : Total q) (hg : ∀ b, Total (g b)) : Total (q >>= g) := by
  intro t br
  obtain ⟨b, t₁, br₁, hfirst⟩ := hq t br
  obtain ⟨b', t', br', hlast⟩ := hg b t₁ br₁
  exact ⟨b', t', br', (exec_bind_of_ok hfirst).trans hlast⟩

theorem total_pure (b : β) : Total (pure b : Parser τ β) := fun t br => ⟨b, t, br, rfl⟩

theorem total_ask (op : ReadOp) : Total (ask op : Parser τ op.Ans) :=
  fun t br => ⟨_, _, _, exec_ask op t br⟩

theorem total_flag : Total (flag : Parser τ Bool) := (total_ask (.u 1)).bind fun _ => total_pure _

theorem total_brSe : Total (brSe : Parser τ Int) := (total_ask .ue).bind fun _ => total_pure _

/-- What only the other one reads, at its end. -/
theorem Reports.right_pure {g : β → β'} {R : α → β' → σ → Prop} (hq : Total q)
    (h : ∀ b, Reports P p (pure (g b) : Parser τ β') R) :
    Reports P p (q >>= fun b => pure (g b)) R := by
  intro s t br a s' br' hs hexec
  obtain ⟨b, t₁, br₁, hread⟩ := hq t br
  obtain ⟨b', t', br'', hlast, hR⟩ := h b s t₁ br a s' br' hs hexec
  cases hlast
  exact ⟨g b, t₁, br₁, exec_bind_of_ok hread, hR⟩

/-- What the parser goes on with is not mirrored any more. -/
theorem Reports.gives {R : α → β → σ → Prop} {S : α' → β → σ → Prop} (h : Reports P p q R)
    (hf : ∀ a b, Gives (R a b) (f a) fun a' s => S a' b s) : Reports P (p >>= f) q S := by
  intro s t br a s' br' hs hexec
  obtain ⟨a₁, s₁, br₁, hfirst, hrest⟩ := exec_bind_ok hexec
  obtain ⟨b, t', br'', hq, hR⟩ := h s t br a₁ s₁ br₁ hs hfirst
  exact ⟨b, t', br'', hq, hf a₁ b s₁ br₁ a s' br' hR hrest⟩

/-- A value is returned if the reader has not failed. -/
theorem gives_checked {Q : α → σ → Prop} (a : α) (h : ∀ s, P s → Q a s) :
    Gives P (checkFailed >>= fun _ => pure a) Q := by
  intro s br a' s' br' hs hexec
  obtain ⟨_, s₁, br₁, hcheck, hlast⟩ := exec_bind_ok hexec
  have hkeeps : Keeps (fun s : σ => s) (checkFailed : Parser σ Unit) := keeps_checkFailed
  have hsame := hkeeps s br
  rw [hcheck] at hsame
  cases hlast
  change s' = s at hsame
  rw [hsame]
  exact h s hs

/-- If `p` returns, it returns `v`, and what `view` shows is as it was. -/
def Ends (view : σ → γ) (v : α) (p : Parser σ α) : Prop :=
  ∀ s br a s' br', exec p s br = ((.ok a, s'), br') → a = v ∧ view s' = view s

variable {view : σ → γ} {v : α'} {p' q' : Parser σ α'}

theorem Ends.bind (hp : Keeps view p) (hf : ∀ a, Ends view v (f a)) : Ends view v (p >>= f) := by
  intro s br a s' br' hexec
  obtain ⟨a₁, s₁, br₁, hfirst, hrest⟩ := exec_bind_ok hexec
  have hview := hp s br
  rw [hfirst] at hview
  obtain ⟨ha, hs⟩ := hf a₁ s₁ br₁ a s' br' hrest
  exact ⟨ha, hs.trans hview⟩

/-- What follows an `if` stands at the end of both branches. -/
theorem Ends.cond {c : Prop} [Decidable c] (hq : Ends view v q')
    (hp : Ends view v q' → Ends view v p') :
    Ends view v (if c then p' else q') := by
  split
  · exact hp hq
  · exact hq

theorem ends_pure : Ends view v (pure v : Parser σ α') := by
  intro s br a s' br' hexec
  cases hexec
  exact ⟨rfl, rfl⟩

/-- The rest of a parser that stores nothing of a view reports what there is already. -/
theorem Ends.reports {b : β'} (h : Ends view v p')
    (hS : ∀ s s', P s → view s' = view s → S v b s') :
    Reports P p' (pure b : Parser τ β') S := by
  intro s t br a s' br' hs hexec
  obtain ⟨rfl, hview⟩ := h s br a s' br' hexec
  exact ⟨b, t, br, rfl, hS s s' hs hview⟩

end Rules

end Rkvdec.Bitstream
