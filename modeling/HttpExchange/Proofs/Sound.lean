/-
# What every reachable client satisfies

No handle is in both buckets, the stream under a handle goes by that handle and
was started before, and its response side runs in the client's mode and holds
nothing back beside credit (`Client.Sound`). A client without streams is sound,
and every operation keeps it so (`Client.sound_advance`).

Key definitions: `Client.Fits`, `Client.Sound`.
Key theorem: `Client.sound_advance`.
-/
import HttpExchange.Proofs.Step
import HttpExchange.Proofs.Balance

namespace HttpExchange
namespace Client

open Registry (Bucket)

/-- What holds of a stream registered under a handle. -/
structure Fits (c : Client) (h : Handle) (s : Stream) : Prop where
  handle : s.id.handle = h
  started : s.id.serial < c.nextSerial
  mode : s.response.explicit = c.explicit
  balanced : s.response.Balanced

/-- What holds of a client. -/
structure Sound (c : Client) : Prop where
  disjoint : c.streams.Disjoint
  fits : ∀ {h b s}, c.entry h = some (b, s) → c.Fits h s

theorem sound_ofConfig (config : Config) (draws : Draws) :
    (ofConfig config draws).Sound where
  disjoint := Registry.disjoint_empty
  fits he := by cases he

theorem fits_fresh (c : Client) (h : Handle) :
    ({ c with nextSerial := c.nextSerial + 1 } : Client).Fits h (c.fresh h) where
  handle := rfl
  started := Nat.lt_succ_self _
  mode := rfl
  balanced := Response.balanced_new _ _

/-- A client keeps sound when what it holds under one handle is replaced by what
fits there. -/
theorem Sound.puts {c c' d : Client} (hc : c.Sound) {h : Handle} {e : Option (Bucket × Stream)}
    (hd : Puts c' h e d) (hs : c'.streams = c.streams) (hx : c'.explicit = c.explicit)
    (hn : c.nextSerial ≤ c'.nextSerial) (he : ∀ {b s}, e = some (b, s) → c'.Fits h s) : d.Sound := by
  refine ⟨hd.disjoint, fun {k b s} hk => ?_⟩
  have hfits : c'.Fits k s := by
    rw [hd.entry] at hk
    split at hk
    · rename_i hkh
      exact hkh ▸ he hk
    · unfold entry at hk
      rw [hs] at hk
      have hf := hc.fits hk
      exact ⟨hf.handle, by have := hf.started; omega, hf.mode.trans hx.symm, hf.balanced⟩
  exact ⟨hfits.handle, hd.nextSerial ▸ hfits.started, hd.explicit ▸ hfits.mode, hfits.balanced⟩

/-- A grant is given in explicit mode only. -/
theorem arrives_of_act? {op : Operation} {explicit : Bool} {a : Act}
    (ha : op.act? explicit = some a) : explicit = true ∨ ∃ p, a = .arrive p := by
  unfold Operation.act? at ha
  split at ha
  · split at ha
    · simp_all
    · cases ha
  · cases ha; exact .inr ⟨_, rfl⟩
  · cases ha; exact .inr ⟨_, rfl⟩
  · cases ha; exact .inr ⟨_, rfl⟩
  · cases ha; exact .inr ⟨_, rfl⟩
  · cases ha

theorem sound_advance {c : Client} (hc : c.Sound) (m : Move) : (c.advance m).1.Sound := by
  have hd := does_advance hc.disjoint m
  generalize c.advance m = r at hd ⊢
  obtain ⟨d, outs⟩ := r
  simp only at hd ⊢
  generalize m.op = op at hd
  cases hd with
  | absent _ _ _ => exact hc
  | taken _ => exact hc
  | unsent _ _ _ => exact hc
  | ungranted _ => exact hc
  | swept =>
    refine ⟨hc.disjoint, fun he => ?_⟩
    have hf := hc.fits he
    exact ⟨hf.handle, hf.started, hf.mode, hf.balanced⟩
  | @started h _ _ hp =>
    refine hc.puts hp rfl rfl (Nat.le_succ _) fun he => ?_
    cases he
    have hf := c.fits_fresh h
    exact ⟨hf.handle, hf.started, hf.mode, hf.balanced⟩
  | sent _ _ _ _ hr _ hp =>
    refine hc.puts hp rfl rfl (Nat.le_refl _) fun he => ?_
    cases he
    have hf := hc.fits hr
    exact ⟨hf.handle, hf.started, hf.mode, hf.balanced⟩
  | cancelled _ hp =>
    refine hc.puts hp rfl rfl (Nat.le_refl _) fun he => ?_
    cases he
  | @answered _ h b s a _ _ ha hr hp =>
    refine hc.puts hp rfl rfl (Nat.le_refl _) fun he => ?_
    have hf := hc.fits hr
    unfold entryAfter at he
    split at he
    · cases he
    · rename_i hun
      cases he
      refine ⟨hf.handle, hf.started, (s.response.explicit_act a).trans hf.mode, ?_⟩
      exact Response.balanced_act hf.balanced (hf.mode ▸ arrives_of_act? ha) (by simpa using hun)

end Client
end HttpExchange
