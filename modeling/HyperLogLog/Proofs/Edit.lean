import HyperLogLog.Proofs.Region

/-!
# What an edit does

`Edit.Meets x r post`: from the region `r`, the edit `x` ends in an outcome and a region that
satisfy `post`, or lent bytes turn out too few. An edit is proved to meet such a statement once,
and whoever uses the edit uses the statement only.

* `Meets.done`, `Meets.bind`, `Meets.write`, `Meets.forM`, …: one rule for each way to build edits;
* `meets_reserve`: making room changes no byte;
* **`Meets.total`**: on a region that the sketch owns, an edit that meets a statement succeeds.
-/

/-! ## Runs of computations -/

namespace EStateM

variable {ε σ α β : Type} {s s' : σ}

theorem bind_of_ok {x : EStateM ε σ α} {f : α → EStateM ε σ β} {a : α} (h : x s = .ok a s') :
    (x >>= f) s = f a s' := by
  change EStateM.bind x f s = f a s'
  rw [EStateM.bind, h]

theorem bind_of_error {x : EStateM ε σ α} {f : α → EStateM ε σ β} {e : ε}
    (h : x s = .error e s') : (x >>= f) s = .error e s' := by
  change EStateM.bind x f s = .error e s'
  rw [EStateM.bind, h]

theorem bind_eq_ok {x : EStateM ε σ α} {f : α → EStateM ε σ β} {b : β}
    (h : (x >>= f) s = .ok b s') : ∃ a s₁, x s = .ok a s₁ ∧ f a s₁ = .ok b s' := by
  cases hx : x s with
  | ok a s₁ => exact ⟨a, s₁, rfl, (bind_of_ok hx).symm.trans h⟩
  | error e s₁ => cases (bind_of_error hx).symm.trans h

theorem get_bind {f : σ → EStateM ε σ α} : ((get : EStateM ε σ σ) >>= f) s = f s s := rfl

theorem modify_bind {g : σ → σ} {f : Unit → EStateM ε σ α} :
    ((modify g : EStateM ε σ Unit) >>= f) s = f () (g s) := rfl

theorem ofExcept_bind {a : α} {f : α → EStateM ε σ β} :
    ((ofExcept (.ok a : Except ε α) : EStateM ε σ α) >>= f) s = f a s := rfl

theorem ofExcept_bind_eq_ok {x : Except ε α} {f : α → EStateM ε σ β} {b : β}
    (h : ((ofExcept x : EStateM ε σ α) >>= f) s = .ok b s') :
    ∃ a, x = .ok a ∧ f a s = .ok b s' := by
  cases x with
  | ok a => exact ⟨a, rfl, h⟩
  | error e => cases h

theorem get_bind_eq_ok {f : σ → EStateM ε σ α} {a : α}
    (h : ((get : EStateM ε σ σ) >>= f) s = .ok a s') : f s s = .ok a s' := h

theorem modify_eq_ok {g : σ → σ} {a : Unit}
    (h : (modify g : EStateM ε σ Unit) s = .ok a s') : s' = g s :=
  (EStateM.Result.ok.inj h).2.symm

end EStateM

namespace Except

variable {ε α β : Type} {e : ε} {f : α → Except ε β} {a : α} {as : List α} {bs : List β}

theorem map_eq_ok {x : Except ε α} {g : α → β} {b : β} (h : x.map g = .ok b) :
    ∃ a, x = .ok a ∧ g a = b := by
  cases x with
  | ok a => exact ⟨a, rfl, Except.ok.inj h⟩
  | error e => cases h

/-! A list is mapped element by element, up to the first that fails. -/

theorem mapM_cons_eq_ok (h : (a :: as).mapM f = .ok bs) :
    ∃ b bs', f a = .ok b ∧ as.mapM f = .ok bs' ∧ bs = b :: bs' := by
  rw [List.mapM_cons] at h
  cases ha : f a with
  | error e =>
    rw [ha] at h
    cases h
  | ok b =>
    cases has : as.mapM f with
    | error e =>
      rw [ha, has] at h
      cases h
    | ok bs' =>
      rw [ha, has] at h
      cases h
      exact ⟨b, bs', rfl, rfl, rfl⟩

theorem ok_of_mapM (h : as.mapM f = .ok bs) : ∀ a ∈ as, ∃ b, f a = .ok b := by
  induction as generalizing bs with
  | nil => exact fun a ha => absurd ha List.not_mem_nil
  | cons a as ih =>
    obtain ⟨b, bs', hb, hbs, -⟩ := mapM_cons_eq_ok h
    exact List.forall_mem_cons.2 ⟨⟨b, hb⟩, ih hbs⟩

theorem getElem?_of_mapM (h : as.mapM f = .ok bs) {i : Nat} {b : β} (hb : bs[i]? = some b) :
    ∃ a, as[i]? = some a ∧ f a = .ok b := by
  induction as generalizing bs i with
  | nil =>
    cases h
    cases hb
  | cons a as ih =>
    obtain ⟨b₀, bs', hb₀, hbs, rfl⟩ := mapM_cons_eq_ok h
    cases i with
    | zero =>
      cases hb
      exact ⟨a, rfl, hb₀⟩
    | succ i => exact ih hbs hb

theorem error_of_mapM (h : as.mapM f = .error e) : ∃ a ∈ as, f a = .error e := by
  induction as with
  | nil => exact nomatch h
  | cons a as ih =>
    rw [List.mapM_cons] at h
    cases ha : f a with
    | error e' =>
      rw [ha] at h
      cases h
      exact ⟨a, List.mem_cons_self, ha⟩
    | ok b =>
      rw [ha] at h
      cases has : as.mapM f with
      | error e' =>
        rw [has] at h
        cases h
        obtain ⟨a', ha', he⟩ := ih has
        exact ⟨a', List.mem_cons_of_mem _ ha', he⟩
      | ok bs' =>
        rw [has] at h
        cases h

end Except

namespace HyperLogLog.Edit

/-! ## Runs that meet a statement -/

variable {α β σ : Type} {r : Region}

/-- Run from `r`, the edit succeeds with an outcome and a region as described, or it fails because
lent bytes are too few. The owner stays the same. -/
structure Meets (x : Edit α) (r : Region) (post : α → Region → Prop) : Prop where
  ok : ∀ a r', x r = .ok a r' → r'.backing = r.backing ∧ post a r'
  error : ∀ f r', x r = .error f r' →
    r.backing = .lent ∧ ∃ required available, f = .outOfRoom required available

namespace Meets

variable {x : Edit α} {post post' : α → Region → Prop}

theorem of_ok {a : α} {r' : Region} (hx : x r = .ok a r') (hb : r'.backing = r.backing)
    (h : post a r') : x.Meets r post := by
  constructor
  · intro a₁ r₁ h₁
    obtain ⟨rfl, rfl⟩ := EStateM.Result.ok.inj (hx.symm.trans h₁)
    exact ⟨hb, h⟩
  · intro f r₁ h₁
    cases hx.symm.trans h₁

theorem mono (h : x.Meets r post) (hp : ∀ a r', r'.backing = r.backing → post a r' → post' a r') :
    x.Meets r post' := by
  refine ⟨fun a r' hx => ?_, h.error⟩
  obtain ⟨hb, hpost⟩ := h.ok a r' hx
  exact ⟨hb, hp a r' hb hpost⟩

theorem done {a : α} (h : post a r) : (pure a : Edit α).Meets r post := of_ok rfl rfl h

theorem bind {f : α → Edit β} {post : β → Region → Prop}
    (h : x.Meets r fun a r' => (f a).Meets r' post) : (x >>= f).Meets r post := by
  cases hx : x r with
  | error e r₁ =>
    have hrun : (x >>= f) r = .error e r₁ := EStateM.bind_of_error hx
    constructor
    · intro b r₂ hb
      cases hrun.symm.trans hb
    · intro e₂ r₂ he
      cases hrun.symm.trans he
      exact h.error e r₁ hx
  | ok a r₁ =>
    have hrun : (x >>= f) r = f a r₁ := EStateM.bind_of_ok hx
    obtain ⟨hb₁, h₁⟩ := h.ok a r₁ hx
    constructor
    · intro b r₂ hb
      obtain ⟨hb₂, h₂⟩ := h₁.ok b r₂ (hrun.symm.trans hb)
      exact ⟨hb₂.trans hb₁, h₂⟩
    · intro e r₂ he
      rw [← hb₁]
      exact h₁.error e r₂ (hrun.symm.trans he)

theorem read_bind {f : Region → Edit α} (h : (f r).Meets r post) :
    ((get : Edit Region) >>= f).Meets r post :=
  bind (of_ok rfl rfl h)

theorem write {g : Region → Region} {post : Unit → Region → Prop} (hb : (g r).backing = r.backing)
    (h : post () (g r)) : (modify g : Edit Unit).Meets r post :=
  of_ok rfl hb h

theorem write_bind {g : Region → Region} {f : Unit → Edit α} (hb : (g r).backing = r.backing)
    (h : (f ()).Meets (g r) post) : ((modify g : Edit Unit) >>= f).Meets r post :=
  bind (write hb h)

theorem ofExcept_bind {a : β} {e : Except Fault β} {f : β → Edit α} (he : e = .ok a)
    (h : (f a).Meets r post) : ((ofExcept e : Edit β) >>= f).Meets r post := by
  subst he
  exact bind (of_ok rfl rfl h)

theorem forM {f : α → Edit Unit} {inv : σ → Region → Prop} {step : σ → α → σ} :
    ∀ (as : List α) (s : σ) (r : Region),
      (∀ s a r', a ∈ as → r'.backing = r.backing → inv s r' →
        (f a).Meets r' fun _ r'' => inv (step s a) r'') →
      inv s r → (as.forM f).Meets r fun _ r' => inv (as.foldl step s) r'
  | [], _, _, _, h => done h
  | a :: as, s, r, hf, h => by
    refine bind ((hf s a r List.mem_cons_self rfl h).mono fun _ r₁ hb₁ h₁ => ?_)
    exact forM as (step s a) r₁ (fun s' a' r' ha hb => hf s' a' r' (List.mem_cons_of_mem _ ha)
      (hb.trans hb₁)) h₁

theorem foldlM {f : β → α → Edit β} {inv : σ → β → Region → Prop} {step : σ → α → σ} :
    ∀ (as : List α) (s : σ) (b : β) (r : Region),
      (∀ s b a r', a ∈ as → r'.backing = r.backing → inv s b r' →
        (f b a).Meets r' (inv (step s a))) →
      inv s b r → (as.foldlM f b).Meets r (inv (as.foldl step s))
  | [], _, _, _, _, h => done h
  | a :: as, s, b, r, hf, h => by
    rw [List.foldlM_cons]
    refine bind ((hf s b a r List.mem_cons_self rfl h).mono fun b₁ r₁ hb₁ h₁ => ?_)
    exact foldlM as (step s a) b₁ r₁ (fun s' b' a' r' ha hb => hf s' b' a' r'
      (List.mem_cons_of_mem _ ha) (hb.trans hb₁)) h₁

theorem total (h : x.Meets r post) (hr : r.backing = .owned) :
    ∃ a r', x r = .ok a r' ∧ r'.backing = .owned ∧ post a r' := by
  cases hx : x r with
  | ok a r' =>
    obtain ⟨hb, hpost⟩ := h.ok a r' hx
    exact ⟨a, r', rfl, hb.trans hr, hpost⟩
  | error f r' =>
    have hlent := (h.error f r' hx).1
    rw [hr] at hlent
    exact absurd hlent (by decide)

end Meets

theorem meets_reserve (n : Nat) (hw : r.backing ≠ .frozen) :
    (Region.reserve n).Meets r fun _ r' =>
      n ≤ r'.size ∧ r.size ≤ r'.size ∧ ∀ j, r'.byte j = r.byte j := by
  cases hb : r.backing with
  | owned =>
    have hx : Region.reserve n r = .ok () (r.extend n) := by rw [Region.reserve, hb]
    refine Meets.of_ok hx (Region.backing_extend n) ⟨?_, ?_, fun j => Region.byte_extend n j⟩
    · rw [Region.size_extend]
      omega
    · rw [Region.size_extend]
      omega
  | lent =>
    have hx : Region.reserve n r =
        if r.size < n then .error (.outOfRoom n r.size) r else .ok () r := by
      rw [Region.reserve, hb]
    by_cases h : r.size < n
    · rw [if_pos h] at hx
      constructor
      · intro a r' h'
        cases hx.symm.trans h'
      · intro f r' h'
        cases hx.symm.trans h'
        exact ⟨hb, _, _, rfl⟩
    · rw [if_neg h] at hx
      exact Meets.of_ok hx rfl ⟨by omega, Nat.le_refl _, fun _ => rfl⟩
  | frozen => exact absurd hb hw

end HyperLogLog.Edit

namespace HyperLogLog.Region

variable {r : Region} {n : Nat}

theorem reserve_of_scant (hb : r.backing = .lent) (hs : r.size < n) :
    reserve n r = .error (.outOfRoom n r.size) r := by
  rw [reserve, hb]
  exact if_pos hs

theorem reserve_of_frozen (hb : r.backing = .frozen) : reserve n r = .error .noWriteAccess r := by
  rw [reserve, hb]

end HyperLogLog.Region
