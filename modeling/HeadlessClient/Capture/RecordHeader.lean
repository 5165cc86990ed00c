import HeadlessClient.Capture.HelloFormat

/-!
# Capture — what the record header contributes

Two records with headers of the same size and the same payload are parsed alike:
with the same error, or into hellos that differ in `recordVersion` and `raw`
only (`parseHello_reheader`). The payload is ARBITRARY here, so this also holds
where it is not a hello at all.

A parser only looks ahead (`Moved`), so the bytes of the header do not matter
once they have been read; the positions it reports are the same because the
headers are of the same size.
-/

namespace HeadlessClient.Capture

open Base Wire

/-- The hello as another record would report it. -/
def Hello.relabel (version : UInt16) (raw : Bytes) (hello : Hello) : Hello :=
  { hello with recordVersion := version, raw }

section Relabel

variable (version : UInt16) (raw : Bytes)

/-! ## The fields -/

theorem moved_parseHelloFields (hello : Hello) (isDTLS isClient : Bool) :
    Moved (Hello.relabel version raw) (parseHelloFields hello isDTLS isClient)
      (parseHelloFields (hello.relabel version raw) isDTLS isClient) :=
  Moved.u16.andThen fun _ => (Moved.bytes _).andThen fun _ => Moved.u8.andThen fun _ =>
    (Moved.skip _).andThen fun _ => (moved_readCookie _ _).andThen fun _ =>
      (moved_readSuites _).andThen fun _ => Moved.pure _ _

theorem moved_readHead (record : Bytes) (oldVersion : UInt16) (isDTLS : Bool) :
    Moved (Hello.relabel version raw) (readHead record oldVersion isDTLS)
      (readHead raw version isDTLS) :=
  (moved_readHandshakeHeader isDTLS).andThen fun _ => moved_parseHelloFields _ _ _ _ _

/-! ## The extensions -/

theorem map_ite {α β ε : Type} {c : Prop} [Decidable c] {f : α → β} {x y : Except ε α}
    {x' y' : Except ε β} (hx : x' = x.map f) (hy : y' = y.map f) :
    (if c then x' else y') = (if c then x else y).map f := by
  split
  · exact hx
  · exact hy

theorem map_bind {α β γ ε : Type} (x : Except ε α) {f : β → γ} {k : α → Except ε β}
    {k' : α → Except ε γ} (h : ∀ a, k' a = (k a).map f) : (x >>= k') = (x >>= k).map f := by
  cases x with
  | error e => rfl
  | ok a => exact h a

theorem applyKnownExtension_relabel (hello : Hello) (extensionType : UInt16) (body : Bytes) :
    applyKnownExtension (hello.relabel version raw) extensionType body =
      (applyKnownExtension hello extensionType body).map (Hello.relabel version raw) :=
  map_ite (map_bind _ fun _ => rfl) <|
  map_ite (map_bind _ fun _ => rfl) <|
  map_ite (map_ite (map_bind _ fun _ => rfl) rfl) <|
  map_ite (map_bind _ fun _ => rfl) <|
  map_ite (map_bind _ fun _ => rfl) <|
  map_ite (map_bind _ fun _ => rfl) <|
  map_ite (map_bind _ fun _ => rfl) <|
  map_ite (map_bind _ fun _ => rfl) <|
  map_ite (map_bind _ fun _ => rfl) rfl

theorem addExtension_relabel (hello : Hello) (extension : Extension) (body : Bytes) :
    addExtension (hello.relabel version raw) extension body =
      (addExtension hello extension body).map (Hello.relabel version raw) :=
  applyKnownExtension_relabel version raw
    { hello with extensions := hello.extensions ++ [extension] } extension.type body

variable {buf : Bytes} {r : ByteReader}

theorem extensions_moved (fin : Nat) {hello : Hello} (h : r.Agrees buf) :
    runLoop _ (extensionRound fin) (hello.relabel version raw, r.moveTo buf) =
      (runLoop _ (extensionRound fin) (hello, r)).map fun x =>
        (x.1.relabel version raw, x.2.moveTo buf) := by
  refine runLoop_map (s := (hello, r))
    (fun x : Hello × ByteReader => (x.1.relabel version raw, x.2.moveTo buf)) _
    (fun x : Hello × ByteReader => x.2.Agrees buf) ?_ h
  rintro ⟨hello, r⟩ h
  by_cases hlt : r.pos < fin
  · have hmoved := (moved_readExtension r.pos).run h
    cases hread : readExtension r.pos r with
    | error e =>
      rw [hread] at hmoved
      rw [extensionRound_error (by exact hlt) (by exact hread)]
      exact extensionRound_error (by exact hlt) hmoved
    | ok x =>
      obtain ⟨⟨extension, body⟩, r'⟩ := x
      rw [hread] at hmoved
      rw [extensionRound_next (by exact hlt) (by exact hread)]
      obtain ⟨hello', hadd⟩ : Returns (addExtension hello extension body) :=
        applyKnownExtension_returns _ _ _
      have hadd' := addExtension_relabel version raw hello extension body
      rw [hadd] at hadd'
      rw [hadd, ok_bind]
      obtain ⟨hbuf, hle, hend⟩ := ((moved_readExtension r.pos).steady r h.inside).2 _ _ hread
      refine ⟨h.later hbuf hle hend, readExtension_remaining hmoved, ?_⟩
      refine (extensionRound_next (by exact hlt) hmoved).trans ?_
      rw [hadd']
      rfl
  · have hle := Nat.not_lt.mp hlt
    rw [extensionRound_done (by exact hle)]
    exact extensionRound_done (by exact hle)

theorem parseExtensions_moved {hello : Hello} (h : r.Agrees buf) :
    parseExtensions (hello.relabel version raw) (r.moveTo buf) =
      (parseExtensions hello r).map fun x => (x.1.relabel version raw, x.2.moveTo buf) := by
  have hrem : (r.moveTo buf).remaining = r.remaining := by
    rw [ByteReader.remaining_eq, ByteReader.remaining_eq, h.rest]
  unfold parseExtensions
  rw [hrem]
  refine map_ite rfl ?_
  rw [Moved.u16.run h]
  cases hread : Parser.u16 r with
  | error e => rfl
  | ok x =>
    obtain ⟨hbuf, hle, hend⟩ := (steady_u16 r h.inside).2 _ _ hread
    have hlater := h.later hbuf hle hend
    change (if x.2.pos + x.1.toNat > buf.length then .error .truncated
      else runLoop _ (extensionRound (x.2.pos + x.1.toNat))
        (hello.relabel version raw, x.2.moveTo buf)) = _
    rw [hlater.length]
    exact map_ite rfl (extensions_moved version raw _ hlater)

theorem readHello_moved (record : Bytes) (oldVersion : UInt16) (isDTLS : Bool) (h : r.Agrees buf) :
    readHello raw version isDTLS (r.moveTo buf) =
      (readHello record oldVersion isDTLS r).map fun x =>
        (x.1.relabel version raw, x.2.moveTo buf) := by
  have hhead := moved_readHead version raw record oldVersion isDTLS
  rw [readHello_eq, readHello_eq, hhead.run h]
  cases hread : readHead record oldVersion isDTLS r with
  | error e => rfl
  | ok x =>
    obtain ⟨hbuf, hle, hend⟩ := (hhead.steady r h.inside).2 _ _ hread
    exact parseExtensions_moved version raw (h.later hbuf hle hend)

end Relabel

/-! ## The record -/

/-- **The record header contributes the version**, and the raw bytes. -/
theorem parseHello_reheader {f f' : Framing} (hkind : f'.isDTLS = f.isDTLS) (k k' : Nat)
    (payload : Bytes) :
    parseHello (f'.header k' ++ payload) =
      (parseHello (f.header k ++ payload)).map
        (Hello.relabel f'.version (f'.header k' ++ payload)) := by
  have hsize : (f'.header k').length = (f.header k).length := by
    rw [Framing.length_header, Framing.length_header, hkind]
  have hagrees : (⟨f.header k ++ payload, (f.header k).length⟩ : ByteReader).Agrees
      (f'.header k' ++ payload) := by
    refine ⟨?_, ?_, ?_⟩
    · simp
    · simp [hsize]
    · simp only [ByteReader.moveTo, ByteReader.rest]
      rw [← hsize, List.drop_left, hsize, List.drop_left]
  have hread := readHello_moved f'.version (f'.header k' ++ payload) (f.header k ++ payload)
    f.version f.isDTLS hagrees
  rw [parseHello_header, parseHello_header, hsize, hkind]
  refine map_bind _ fun _ => ?_
  unfold ByteReader.moveTo at hread
  rw [hread]
  cases readHello (f.header k ++ payload) f.version f.isDTLS
      ⟨f.header k ++ payload, (f.header k).length⟩ with
  | error e => rfl
  | ok x => rfl

end HeadlessClient.Capture
