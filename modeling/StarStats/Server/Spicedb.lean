import StarStats.Lib.Tuples

/-!
# Relationships (`starstats-server/src/spicedb.rs`, `infra/spicedb/schema.zed`)

The relationships the server keeps in SpiceDB and the permission `view` of the schema. Object ids
are compared exactly, so two spellings of one handle are two users. A check sees every write
made before it.
-/

namespace StarStats

inductive ObjectType where
  | user
  | organization
  | statsRecord
  | oauthApp
  | oauthToken
  deriving DecidableEq

structure ObjectRef where
  objectType : ObjectType
  objectId : String
  deriving DecidableEq

/-- The subject of a scope is `oauth_token#user`, that of another relation an object. -/
inductive Relation where
  | friend
  | member
  | admin
  | owner
  | shareWithOrg
  | shareWithUser
  | publicView
  | shareWithFriendsOf
  | user
  | app
  | scopeStatsRead
  | scopeOrgRead
  deriving DecidableEq

/-- The type of the relation's subjects in the schema. -/
def Relation.subjectType : Relation → ObjectType
  | .shareWithOrg => .organization
  | .app => .oauthApp
  | .scopeStatsRead | .scopeOrgRead => .oauthToken
  | _ => .user

abbrev Relationship := Tuples.Tuple ObjectRef Relation

def userRef (handle : String) : ObjectRef := ⟨.user, handle⟩
def statsRecord (handle : String) : ObjectRef := ⟨.statsRecord, handle⟩

/-- `stats_record:<owner>#share_with_user@user:<recipient>`. -/
def shareTuple (owner recipient : String) : Relationship :=
  ⟨statsRecord owner, .shareWithUser, userRef recipient⟩

def writeShareWithUser (owner recipient : String) (rels : List Relationship) :
    List Relationship := Tuples.touch (shareTuple owner recipient) rels

def deleteShareWithUser (owner recipient : String) (rels : List Relationship) :
    List Relationship := Tuples.erase (shareTuple owner recipient) rels

/-- `user:<a>#friend@user:<b>`. -/
def friendTuple (a b : String) : Relationship := ⟨userRef a, .friend, userRef b⟩

/-- `write_friendship`: both directions in one request. -/
def writeFriendship (a b : String) (rels : List Relationship) : Option (List Relationship) :=
  Tuples.write [.touch (friendTuple a b), .touch (friendTuple b a)] rels

/-- `delete_friendship`. -/
def deleteFriendship (a b : String) (rels : List Relationship) : Option (List Relationship) :=
  Tuples.write [.delete (friendTuple a b), .delete (friendTuple b a)] rels

/-- `friend_sync::apply`: a request that is refused is logged. -/
def applyFriends (a b : String) (friends : Bool) (rels : List Relationship) : List Relationship :=
  (if friends then writeFriendship a b rels else deleteFriendship a b rels).getD rels

/-! ## The schema -/

section
variable (rels : List Relationship)

/-- `organization#view = member + admin + owner`. -/
def organizationView (user org : ObjectRef) : Bool :=
  Tuples.linked rels org .member (· = user) || Tuples.linked rels org .admin (· = user) ||
    Tuples.linked rels org .owner (· = user)

/-- `organization#view_all_member_stats = admin + owner`. -/
def organizationViewAllMemberStats (user org : ObjectRef) : Bool :=
  Tuples.linked rels org .admin (· = user) || Tuples.linked rels org .owner (· = user)

/-- The terms of `stats_record#view` other than `share_with_user`: the owner, an org share, a
public record, a friends share. -/
def viewWithoutShare (record user : ObjectRef) : Bool :=
  Tuples.linked rels record .owner (· = user) ||
    Tuples.linked rels record .shareWithOrg (organizationView rels user) ||
    Tuples.linked rels record .shareWithOrg (organizationViewAllMemberStats rels user) ||
    Tuples.linked rels record .publicView (· = userRef "*") ||
    Tuples.linked rels record .shareWithFriendsOf fun friend =>
      Tuples.linked rels friend .friend (· = user)

/-- `stats_record#view`. -/
def statsRecordView (record user : ObjectRef) : Bool :=
  Tuples.linked rels record .shareWithUser (· = user) || viewWithoutShare rels record user

end

end StarStats
