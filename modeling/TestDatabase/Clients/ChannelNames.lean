import Mathlib.Data.List.Nodup
import TestDatabase.Lib.IntLoop

/-!
# The channels of getmany and monitormany

`getmany` and `monitormany` take a number of channels and an offset from the command line,
build the names `X<offset>`, `X<offset+1>` and so on, and make a client for each.  The loop
that builds the names runs from `offset` to `nchannels + offset`, which need not fit an
`int`; the loops over the channels run from 0 to `nchannels`.  The code is the same in the
two programs.

## Main definitions

* `Arguments.buildNames` — the loop that builds the names.
* `Arguments.forChannels` — the loops over the channels.
* `Arguments.main` — from the command line to the clients.
* `Started.Matches` — the names that there should be, and a client for each.

## Main results

* `Arguments.buildNames_eq`, `Arguments.forChannels_eq` — what the loops come to.
* `main_matches_iff` — **when the names match the number of channels.**
* `not_lt_add_of_overflow` — a sum that wraps round builds no names at all.
-/

namespace TestDatabase.ChannelNames

open IntLoop

/-! ### The programs -/

/-- What is taken from the command line. -/
structure Arguments where
  nchannels : Int32 := 50000
  offset : Int32 := 1
  deriving DecidableEq

/-- `channelNames` and the clients, each given by the name of its channel. -/
structure Started where
  channelNames : List String
  clients : List String
  deriving DecidableEq, Repr

/-- `s <<"X"; s << i;` -/
def channelName (i : ℤ) : String := "X" ++ toString i

namespace Arguments

/-- `if(offset<0) offset=0;` -/
def checkOffset (a : Arguments) : Arguments := if a.offset < 0 then { a with offset := 0 } else a

/-- `for(int i=offset; i< nchannels + offset; ++i)`: the name of channel `i`. -/
def buildNames (a : Arguments) : Option (List String) :=
  -- the bound is computed for each round, and is the same in all
  (add a.nchannels a.offset).bind fun bound =>
    pushBack bound (fun i => some (channelName i)) [] a.offset

/-- `for(int i=0; i<nchannels; ++i)`: the element at `i`.  There is none behind the end. -/
def forChannels (a : Arguments) (elements : List String) : Option (List String) :=
  pushBack a.nchannels (fun i => elements[i.toNat]?) [] 0

/-- `main`, up to the commands. -/
def main (a : Arguments) : Option Started :=
  let a := a.checkOffset
  a.buildNames.bind fun channelNames =>
    (a.forChannels channelNames).map fun clients => { channelNames, clients }

/-- How many channels there should be. -/
def count (a : Arguments) : ℕ := a.nchannels.toInt.toNat

/-- The names that there should be. -/
def names (a : Arguments) : List String :=
  (List.range a.count).map fun k : ℕ => channelName (a.offset.toInt + k)

end Arguments

/-- There are as many names as channels, all different, counted up from the offset; a client
for each; and a command finds the client of each channel. -/
structure Started.Matches (s : Started) (a : Arguments) : Prop where
  names : s.channelNames = a.names
  length : s.channelNames.length = a.count
  distinct : s.channelNames.Nodup
  clients : s.clients = s.channelNames
  commands : a.forChannels s.clients = some s.clients

/-! ### The names -/

/-- The number of a channel can be read off its name. -/
theorem channelName_inj {i j : ℤ} (hi : 0 ≤ i) (hj : 0 ≤ j) (h : channelName i = channelName j) :
    i = j := by
  obtain ⟨m, rfl⟩ := Int.eq_ofNat_of_zero_le hi
  obtain ⟨n, rfl⟩ := Int.eq_ofNat_of_zero_le hj
  have hrepr : m.repr = n.repr := (String.append_right_inj "X").mp h
  have hdigits : Nat.toDigits 10 m = Nat.toDigits 10 n := by
    rw [← Nat.toList_repr, hrepr, Nat.toList_repr]
  have hsame : m = n := by
    rw [← Nat.ofDigitChars_ten_toDigits (n := m), hdigits, Nat.ofDigitChars_ten_toDigits]
  rw [hsame]

namespace Arguments

theorem length_names (a : Arguments) : a.names.length = a.count := by
  rw [names, List.length_map, List.length_range]

theorem nodup_names {a : Arguments} (hoffset : 0 ≤ a.offset.toInt) : a.names.Nodup := by
  refine List.nodup_range.map fun k k' h => ?_
  have hsame := channelName_inj (by omega) (by omega) h
  omega

/-- The loop builds the names if its bound fits. -/
theorem buildNames_eq {a : Arguments} {bound : Int32} (hbound : add a.nchannels a.offset = some bound) :
    a.buildNames = some a.names := by
  have hsum := add_eq_some_iff.mp hbound
  have hrounds : (bound.toInt - a.offset.toInt).toNat = a.count := by
    rw [hsum, count]
    omega
  rw [buildNames, hbound, Option.bind_some, pushBack_eq fun _ _ _ => rfl, hrounds]
  rfl

/-- A loop over the channels finds what it looks for if there is enough. -/
theorem forChannels_eq {a : Arguments} {elements : List String} (h : elements.length = a.count) :
    a.forChannels elements = some elements := by
  have hzero : (0 : Int32).toInt = 0 := Int32.toInt_zero
  have hin : ∀ k : ℤ, (0 : Int32).toInt ≤ k → k < a.nchannels.toInt →
      elements[k.toNat]? = some (elements.getD k.toNat "") := by
    intro k hk hlt
    have hk' : k.toNat < elements.length := by
      rw [h, count]
      omega
    rw [List.getElem?_eq_getElem hk', List.getElem_eq_getD ""]
  have hrounds : (a.nchannels.toInt - 0).toNat = elements.length := by
    rw [sub_zero, h, count]
  rw [forChannels, pushBack_eq hin, hzero, hrounds, List.nil_append, Option.some.injEq]
  refine List.ext_getElem (by simp) fun k hk hk' => ?_
  rw [List.getElem_map, List.getElem_range, zero_add, Int.toNat_natCast,
    List.getElem_eq_getD ""]

theorem nchannels_checkOffset (a : Arguments) : a.checkOffset.nchannels = a.nchannels := by
  unfold checkOffset
  split <;> rfl

theorem offset_checkOffset_nonneg (a : Arguments) : 0 ≤ a.checkOffset.offset.toInt := by
  unfold checkOffset
  split
  · exact Int32.toInt_zero.ge
  · next hnlt =>
    rw [Int32.lt_iff_toInt_lt, Int32.toInt_zero] at hnlt
    omega

/-- What is made of the arguments if the bound of the names fits. -/
theorem main_eq {a : Arguments} {bound : Int32}
    (hbound : add a.checkOffset.nchannels a.checkOffset.offset = some bound) :
    a.main = some { channelNames := a.checkOffset.names, clients := a.checkOffset.names } := by
  rw [main, buildNames_eq hbound, Option.bind_some, forChannels_eq (length_names _),
    Option.map_some]

/-- Nothing is made of them without a bound. -/
theorem exists_bound_of_main {a : Arguments} {s : Started} (h : a.main = some s) :
    ∃ bound, add a.checkOffset.nchannels a.checkOffset.offset = some bound := by
  unfold main at h
  obtain ⟨channelNames, hnames, -⟩ := Option.bind_eq_some_iff.mp h
  obtain ⟨bound, hbound, -⟩ := Option.bind_eq_some_iff.mp hnames
  exact ⟨bound, hbound⟩

end Arguments

/-! ### When the names match -/

/-- **When the names match the number of channels.**  For every number and offset of the
command line, the names are `X<offset>` and so on, one for each channel and all different,
and no loop over the channels leaves them, exactly if the sum of the two fits an `int`. -/
theorem main_matches_iff (a : Arguments) :
    (∃ s, a.main = some s ∧ s.Matches a.checkOffset) ↔
      a.checkOffset.offset.toInt + a.nchannels.toInt < 2 ^ 31 := by
  have hoffset := a.offset_checkOffset_nonneg
  have hnchannels := a.nchannels.le_toInt
  have hfits := exists_add_iff (a := a.checkOffset.nchannels) (b := a.checkOffset.offset)
  rw [a.nchannels_checkOffset] at hfits
  constructor
  · rintro ⟨s, hs, -⟩
    have hbound := Arguments.exists_bound_of_main hs
    rw [a.nchannels_checkOffset] at hbound
    have hlt := (hfits.mp hbound).2
    omega
  · intro hlt
    obtain ⟨bound, hbound⟩ := hfits.mpr ⟨by omega, by omega⟩
    rw [← a.nchannels_checkOffset] at hbound
    have hlength := a.checkOffset.length_names
    exact ⟨_, Arguments.main_eq hbound, rfl, hlength, Arguments.nodup_names hoffset, rfl,
      Arguments.forChannels_eq hlength⟩

/-- One channel at the greatest offset. -/
theorem not_main_matches : ¬ ∀ a : Arguments, 0 ≤ a.nchannels →
    ∃ s, a.main = some s ∧ s.Matches a.checkOffset := by
  intro h
  obtain ⟨s, hs, -⟩ := h { nchannels := 1, offset := 2147483647 } (by decide)
  obtain ⟨bound, hbound⟩ := Arguments.exists_bound_of_main hs
  have hnone : add 1 2147483647 = none := by decide
  exact absurd (hnone.symm.trans hbound) (by simp)

/-- A sum that does not fit comes with a channel at least, and if it wraps round the loop
that builds the names ends before its first round. -/
theorem not_lt_add_of_overflow {a : Arguments} (h : add a.nchannels a.offset = none)
    (hoffset : 0 ≤ a.offset.toInt) :
    0 < a.count ∧ ¬ a.offset < a.nchannels + a.offset := by
  have hnchannels := a.nchannels.le_toInt
  have hlt := a.nchannels.toInt_lt
  have hlt' := a.offset.toInt_lt
  have hover : 2 ^ 31 ≤ a.nchannels.toInt + a.offset.toInt := by
    by_contra hfits
    obtain ⟨bound, hbound⟩ := exists_add_iff.mpr ⟨by omega, not_le.mp hfits⟩
    exact absurd (h.symm.trans hbound) (by simp)
  constructor
  · unfold Arguments.count
    omega
  · rw [Int32.lt_iff_toInt_lt, Int32.toInt_add, Int.bmod_def]
    split <;> omega

end TestDatabase.ChannelNames
