import VibeField.Fieldd.Principal

/-!
# Client ids tell clients apart

A client id is a kind, and after a colon what tells clients of the kind apart.  What a
daemon restates is percent-encoded, so no separator inside it aliases another key.  A
login and a node id stand as they are: a login that goes on past another login with a
number sign may be taken for that login and a node.
-/

namespace VibeField.Fieldd

open Uri List Option

/-! ## The id of a client -/

def mark : Option String → String
  | none => ""
  | some node => "#" ++ node

def Inner.key : Inner → String
  | window windowId => encodeURIComponent windowId
  | phone deviceId => "phone:" ++ encodeURIComponent deviceId

namespace Client

def head : Client → String
  | window _ _ => "win"
  | token kind _ => kind.name
  | agents => "mcp-agent"
  | plugins => "plugin"
  | tailnet guest _ _ => if guest then "tailnet-guest" else "tailnet"
  | daemon _ => "peer-fieldd"
  | forwarded _ _ _ => "peer-fieldd"

def tail : Client → Option String
  | window participantId incarnation => some (participantId ++ "#" ++ incarnation)
  | token _ tokenId => some tokenId
  | agents => none
  | plugins => none
  | tailnet _ login node => some (login ++ mark node)
  | daemon carrier => some (encodeURIComponent carrier)
  | forwarded carrier home inner =>
    some (encodeURIComponent carrier ++ "#" ++
      if home = carrier then inner.key else encodeURIComponent home ++ "/" ++ inner.key)

def id (c : Client) : String :=
  match c.tail with
  | none => c.head
  | some text => c.head ++ ":" ++ text

end Client

theorem clientIdFor_eq (p : Principal) (f : Option ForwardedFor) :
    clientIdFor p.grant f = (clientOf p f).id := by
  cases p with
  | localToken tokenId participant =>
    cases participant with
    | none => rfl
    | some parts => simp [clientIdFor, Principal.grant, clientOf, Client.id, Client.head,
        Client.tail, String.append_assoc]
  | shellMain tokenId => rfl
  | tailnet login node self =>
    cases node <;>
      simp [clientIdFor, Principal.grant, clientOf, Client.id, Client.head, Client.tail, mark,
        String.append_assoc]
  | tailnetGuest login node =>
    cases node <;>
      simp [clientIdFor, Principal.grant, clientOf, Client.id, Client.head, Client.tail, mark,
        String.append_assoc]
  | mcpAgent sessionId => rfl
  | plugin name tokenId => cases tokenId <;> rfl
  | peerFieldd device node =>
    cases f with
    | none => rfl
    | some f =>
      obtain ⟨clientKind, home, windowId, userId, clientDeviceId⟩ := f
      cases clientDeviceId with
      | some phone =>
        by_cases hhome : home = device <;>
          simp [clientIdFor, Principal.grant, clientOf, Client.id, Client.head, Client.tail,
            forwardedClientKey, ForwardedFor.inner, Inner.key, hhome, String.append_assoc]
      | none =>
        cases windowId with
        | none => rfl
        | some window =>
          by_cases hhome : home = device <;>
            simp [clientIdFor, Principal.grant, clientOf, Client.id, Client.head, Client.tail,
              forwardedClientKey, ForwardedFor.inner, Inner.key, hhome, String.append_assoc]

/-! ## Ids apart -/

theorem colon_not_mem_head (c : Client) : ':' ∉ c.head.toList := by
  have hnames : ∀ name ∈ ["win", "local-token", "shell-main", "plugin", "mcp-agent",
      "tailnet-guest", "tailnet", "peer-fieldd"], ':' ∉ name.toList := by
    decide
  apply hnames
  cases c with
  | token kind tokenId => cases kind <;> simp [Client.head, TokenKind.name]
  | tailnet guest login node => cases guest <;> simp [Client.head]
  | _ => simp [Client.head]

theorem parts_of_id {c d : Client} (h : c.id = d.id) : c.head = d.head ∧ c.tail = d.tail := by
  have hlist := congrArg String.toList h
  unfold Client.id at hlist
  cases hc : c.tail with
  | none =>
    cases hd : d.tail with
    | none =>
      rw [hc, hd] at hlist
      exact ⟨String.toList_inj.mp hlist, rfl⟩
    | some t =>
      rw [hc, hd] at hlist
      simp only [String.toList_append] at hlist
      exact absurd (by simpa using hlist) (cut_ne (colon_not_mem_head c))
  | some s =>
    cases hd : d.tail with
    | none =>
      rw [hc, hd] at hlist
      simp only [String.toList_append] at hlist
      exact absurd (by simpa using hlist.symm) (cut_ne (colon_not_mem_head d))
    | some t =>
      rw [hc, hd] at hlist
      simp only [String.toList_append, append_assoc] at hlist
      obtain ⟨hhead, htail⟩ := cut_inj (colon_not_mem_head c) (colon_not_mem_head d)
        (x := s.toList) (y := t.toList) (by simpa using hlist)
      exact ⟨String.toList_inj.mp hhead, congrArg some (String.toList_inj.mp htail)⟩

theorem number_not_mem (text : String) : '#' ∉ (encodeURIComponent text).toList := fun h =>
  not_separator_of_mem h (by decide)

theorem slash_not_mem (text : String) : '/' ∉ (encodeURIComponent text).toList := fun h =>
  not_separator_of_mem h (by decide)

theorem colon_not_mem (text : String) : ':' ∉ (encodeURIComponent text).toList := fun h =>
  not_separator_of_mem h (by decide)

theorem slash_not_mem_key (i : Inner) : '/' ∉ i.key.toList := by
  cases i with
  | window windowId => exact slash_not_mem windowId
  | phone deviceId =>
    rw [Inner.key, String.toList_append, mem_append, not_or]
    exact ⟨by decide, slash_not_mem deviceId⟩

theorem key_inj {i j : Inner} (h : i.key = j.key) : i = j := by
  cases i with
  | window w =>
    cases j with
    | window w' => rw [encodeURIComponent_inj h]
    | phone d =>
      -- a colon is in the key of a phone alone
      have hcolon : ':' ∈ (Inner.phone d).key.toList := by
        rw [Inner.key, String.toList_append, mem_append]
        exact .inl (by decide)
      rw [← h] at hcolon
      exact absurd hcolon (colon_not_mem w)
  | phone d =>
    cases j with
    | window w =>
      have hcolon : ':' ∈ (Inner.phone d).key.toList := by
        rw [Inner.key, String.toList_append, mem_append]
        exact .inl (by decide)
      rw [h] at hcolon
      exact absurd hcolon (colon_not_mem w)
    | phone d' =>
      rw [Inner.key, Inner.key, String.append_right_inj] at h
      rw [encodeURIComponent_inj h]

theorem forwarded_inj {carrier carrier' home home' : String} {i j : Inner}
    (h : (Client.forwarded carrier home i).tail = (Client.forwarded carrier' home' j).tail) :
    carrier = carrier' ∧ home = home' ∧ i = j := by
  have hlist := congrArg String.toList (some.inj h)
  simp only [String.toList_append, append_assoc] at hlist
  obtain ⟨hcarrier, hrest⟩ := cut_inj (number_not_mem carrier) (number_not_mem carrier')
    (by simpa using hlist)
  obtain rfl := encodeURIComponent_inj (String.toList_inj.mp hcarrier)
  refine ⟨rfl, ?_⟩
  by_cases hhome : home = carrier
  · by_cases hhome' : home' = carrier
    · rw [if_pos hhome, if_pos hhome'] at hrest
      exact ⟨hhome.trans hhome'.symm, key_inj (String.toList_inj.mp hrest)⟩
    · rw [if_pos hhome, if_neg hhome', String.toList_append, String.toList_append,
        append_assoc] at hrest
      exact absurd (by simpa using hrest) (cut_ne (slash_not_mem_key i))
  · by_cases hhome' : home' = carrier
    · rw [if_neg hhome, if_pos hhome', String.toList_append, String.toList_append,
        append_assoc] at hrest
      exact absurd (by simpa using hrest.symm) (cut_ne (slash_not_mem_key j))
    · rw [if_neg hhome, if_neg hhome'] at hrest
      simp only [String.toList_append, append_assoc] at hrest
      obtain ⟨hh, hk⟩ := cut_inj (slash_not_mem home) (slash_not_mem home')
        (by simpa using hrest)
      exact ⟨encodeURIComponent_inj (String.toList_inj.mp hh),
        key_inj (String.toList_inj.mp hk)⟩

/-- One login goes on past the other with a number sign, and the other's node says on. -/
def GoesOn (login : String) (node : Option String) (login' : String) (node' : Option String) :
    Prop :=
  ∃ rest, login' = login ++ "#" ++ rest ∧ node = some (rest ++ mark node')

def Aliased : Client → Client → Prop
  | .tailnet guest login node, .tailnet guest' login' node' =>
    guest = guest' ∧ (GoesOn login node login' node' ∨ GoesOn login' node' login node)
  | _, _ => False

theorem mark_inj {a b : Option String} (h : mark a = mark b) : a = b := by
  cases a with
  | none =>
    cases b with
    | none => rfl
    | some b =>
      have hlist := congrArg String.toList h
      simp [mark] at hlist
  | some a =>
    cases b with
    | none =>
      have hlist := congrArg String.toList h
      simp [mark] at hlist
    | some b =>
      rw [mark, mark, String.append_right_inj] at h
      rw [h]

theorem goesOn_of_prefix {login login' : String} {node node' : Option String} {more : List Char}
    (hlogin : login'.toList = login.toList ++ more)
    (hmark : (mark node).toList = more ++ (mark node').toList) :
    (login = login' ∧ node = node') ∨ GoesOn login node login' node' := by
  cases more with
  | nil =>
    left
    rw [append_nil] at hlogin
    exact ⟨(String.toList_inj.mp hlogin).symm, mark_inj (String.toList_inj.mp hmark)⟩
  | cons c rest =>
    right
    cases node with
    | none => simp [mark] at hmark
    | some n =>
      have hmark' : '#' :: n.toList = c :: (rest ++ (mark node').toList) := by
        simpa [mark] using hmark
      obtain ⟨hc, hn⟩ := List.cons.inj hmark'
      refine ⟨String.ofList rest, ?_, ?_⟩
      · rw [← String.toList_inj, hlogin, ← hc]
        simp
      · rw [← String.ofList_toList (s := n), hn]
        congr 1
        rw [← String.toList_inj]
        simp

theorem tailnet_tail {guest : Bool} {login login' : String} {node node' : Option String} :
    (Client.tailnet guest login node).tail = (Client.tailnet guest login' node').tail ↔
      (login = login' ∧ node = node') ∨ GoesOn login node login' node' ∨
        GoesOn login' node' login node := by
  constructor
  · intro h
    have hlist := congrArg String.toList (some.inj h)
    rw [String.toList_append, String.toList_append, append_eq_append_iff] at hlist
    rcases hlist with ⟨more, hlogin, hmark⟩ | ⟨more, hlogin, hmark⟩
    · rcases goesOn_of_prefix hlogin hmark with heq | hon
      · exact .inl heq
      · exact .inr (.inl hon)
    · rcases goesOn_of_prefix hlogin hmark with ⟨rfl, rfl⟩ | hon
      · exact .inl ⟨rfl, rfl⟩
      · exact .inr (.inr hon)
  · rintro (⟨rfl, rfl⟩ | ⟨rest, rfl, rfl⟩ | ⟨rest, rfl, rfl⟩)
    · rfl
    · simp [Client.tail, mark, String.append_assoc]
    · simp [Client.tail, mark, String.append_assoc]

def SameKind : Client → Client → Prop
  | .window _ _, .window _ _ => True
  | .token kind _, .token kind' _ => kind = kind'
  | .token kind _, .plugins | .plugins, .token kind _ => kind = .plugin
  | .agents, .agents | .plugins, .plugins => True
  | .tailnet guest _ _, .tailnet guest' _ _ => guest = guest'
  | .daemon _, .daemon _ | .daemon _, .forwarded _ _ _ => True
  | .forwarded _ _ _, .daemon _ | .forwarded _ _ _, .forwarded _ _ _ => True
  | _, _ => False

theorem sameKind_of_head {c d : Client} (h : c.head = d.head) : SameKind c d := by
  unfold SameKind
  cases c with
  | token kind tokenId =>
    cases kind <;> cases d with
    | token kind' tokenId' => cases kind' <;> simp_all [Client.head, TokenKind.name]
    | tailnet guest login node => cases guest <;> simp_all [Client.head, TokenKind.name]
    | _ => simp_all [Client.head, TokenKind.name]
  | tailnet guest login node =>
    cases guest <;> cases d with
    | token kind tokenId => cases kind <;> simp_all [Client.head, TokenKind.name]
    | tailnet guest' login' node' => cases guest' <;> simp_all [Client.head]
    | _ => simp_all [Client.head]
  | _ =>
    cases d with
    | token kind tokenId => cases kind <;> simp_all [Client.head, TokenKind.name]
    | tailnet guest login node => cases guest <;> simp_all [Client.head]
    | _ => simp_all [Client.head]

def Client.Formed : Client → Prop
  | window participantId _ => '#' ∉ participantId.toList
  | _ => True

theorem daemon_ne_forwarded {carrier carrier' home : String} {i : Inner} :
    (Client.daemon carrier).tail ≠ (Client.forwarded carrier' home i).tail := by
  intro h
  have hlist := congrArg String.toList (some.inj h)
  simp only [String.toList_append, append_assoc] at hlist
  exact absurd (by simpa using hlist) (cut_ne (number_not_mem carrier))

theorem id_inj_or_aliased {c d : Client} (hc : c.Formed) (hd : d.Formed) (h : c.id = d.id) :
    c = d ∨ Aliased c d := by
  obtain ⟨hhead, htail⟩ := parts_of_id h
  have hkind := sameKind_of_head hhead
  unfold SameKind at hkind
  split at hkind
  · next p i p' i' =>
    left
    have hlist := congrArg String.toList (some.inj htail)
    simp only [String.toList_append, append_assoc] at hlist
    obtain ⟨hp, hi⟩ := cut_inj hc hd (by simpa using hlist)
    rw [String.toList_inj.mp hp, String.toList_inj.mp hi]
  · next kind tokenId kind' tokenId' =>
    left
    rw [hkind, some.inj htail]
  · cases htail
  · cases htail
  · exact .inl rfl
  · exact .inl rfl
  · next guest login node guest' login' node' =>
    subst hkind
    rcases tailnet_tail.mp htail with ⟨rfl, rfl⟩ | hon
    · exact .inl rfl
    · exact .inr ⟨rfl, hon⟩
  · left
    rw [encodeURIComponent_inj (some.inj htail)]
  · exact absurd htail daemon_ne_forwarded
  · exact absurd htail.symm daemon_ne_forwarded
  · obtain ⟨rfl, rfl, rfl⟩ := forwarded_inj htail
    exact .inl rfl
  · exact hkind.elim

/-! ## The requests of the door -/

theorem number_not_mem_part (part : ParticipantPart) : '#' ∉ part.text.toList := by
  have hvalid := part.valid
  unfold isParticipantPart at hvalid
  split at hvalid
  · cases hvalid
  · next first rest htext =>
    simp only [Bool.and_eq_true, List.all_eq_true] at hvalid
    rw [htext]
    intro hmem
    rcases mem_cons.mp hmem with rfl | hmem
    · exact absurd hvalid.1.1 (by decide)
    · exact absurd (hvalid.1.2 _ hmem) (by decide)

theorem formed_clientOf (p : Principal) (f : Option ForwardedFor) : (clientOf p f).Formed := by
  unfold clientOf
  split <;> first | exact number_not_mem_part _ | trivial | (split <;> first | trivial |
    (split <;> trivial))

/-- Two requests get one client id exactly when they come from one client, as the door can
tell it, or are two callers at the tailnet door one of whose logins goes on past the
other's with a number sign.  A forwarded call that names a window or a phone shares its id
with no other carrier, home, window or phone, and with no client that is not forwarded. -/
theorem clientIdFor_tells_apart (p q : Principal) (f g : Option ForwardedFor) :
    (clientIdFor p.grant f = clientIdFor q.grant g ↔
      clientOf p f = clientOf q g ∨ Aliased (clientOf p f) (clientOf q g)) ∧
    (∀ carrier home inner, clientOf p f = .forwarded carrier home inner →
      clientIdFor p.grant f = clientIdFor q.grant g →
        clientOf q g = .forwarded carrier home inner) := by
  have hinj : clientIdFor p.grant f = clientIdFor q.grant g →
      clientOf p f = clientOf q g ∨ Aliased (clientOf p f) (clientOf q g) := by
    intro h
    rw [clientIdFor_eq, clientIdFor_eq] at h
    exact id_inj_or_aliased (formed_clientOf p f) (formed_clientOf q g) h
  refine ⟨⟨hinj, ?_⟩, ?_⟩
  · intro h
    rw [clientIdFor_eq, clientIdFor_eq]
    rcases h with h | h
    · rw [h]
    · generalize clientOf p f = c, clientOf q g = d at h
      unfold Aliased at h
      split at h
      · next guest login node guest' login' node' =>
        obtain ⟨rfl, hon⟩ := h
        unfold Client.id
        rw [tailnet_tail.mpr (.inr hon)]
        rfl
      · exact h.elim
  · intro carrier home inner hp h
    rcases hinj h with heq | halias
    · rw [← heq, hp]
    · rw [hp] at halias
      exact halias.elim

def relayedWindow : ForwardedFor where
  clientKind := "renderer"
  deviceId := "dev-c"
  windowId := some "p#1/x"

theorem clientIdFor_tells_apart_relayed :
    clientIdFor (Principal.peerFieldd "dev-b" none).grant (some relayedWindow) =
        "peer-fieldd:dev-b#dev-c/p%231%2Fx" ∧
      ∀ q g, clientIdFor (Principal.peerFieldd "dev-b" none).grant (some relayedWindow) =
          clientIdFor q.grant g →
        clientOf q g = .forwarded "dev-b" "dev-c" (.window "p#1/x") := by
  refine ⟨by decide +kernel, ?_⟩
  intro q g h
  exact (clientIdFor_tells_apart (.peerFieldd "dev-b" none) q (some relayedWindow) g).2
    "dev-b" "dev-c" (.window "p#1/x") rfl h

/-! ## Phones -/

/-- A phone of the person's. -/
structure Phone where
  login : String
  nodeId : String
  deriving DecidableEq, Repr

def Phone.principal (phone : Phone) (injectsNode : Bool) : Principal :=
  .tailnet phone.login (if injectsNode then some phone.nodeId else none) (some true)

/-- Behind a sidecar that injects no node id, a person's phones are one client. -/
theorem phones_share_login :
    ∃ phone ipad : Phone, phone ≠ ipad ∧
      clientIdFor (phone.principal false).grant none =
        clientIdFor (ipad.principal false).grant none := by
  exact ⟨⟨"me@example.com", "nodekey:aaaa"⟩, ⟨"me@example.com", "nodekey:bbbb"⟩, by decide, rfl⟩

end VibeField.Fieldd
