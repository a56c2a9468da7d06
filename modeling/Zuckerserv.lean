import Zuckerserv.Shared.NetStream
import Zuckerserv.Shared.NetString
import Zuckerserv.Shared.TextFilter
import Zuckerserv.Shared.Inversion
import Zuckerserv.Shared.Challenge
import Zuckerserv.Fps.SpectatorDelay
import Zuckerserv.Fps.ShotRays
import Zuckerserv.Fps.RateLimit
import Zuckerserv.Fps.EventClearing
import Zuckerserv.Fps.CtfVersions
import Zuckerserv.Fps.CtfOwners
import Zuckerserv.Fps.CtfIndices
import Zuckerserv.Fps.CtfHold
import Zuckerserv.Fps.CollectTokens
import Zuckerserv.Fps.CaptureOccupants
import Zuckerserv.Fps.Entities
import Zuckerserv.Fps.BotLoads
import Zuckerserv.Fps.Ranks
import Zuckerserv.Fps.Positions
import Zuckerserv.Fps.VoteNames
import Zuckerserv.Fps.Spies
import Zuckerserv.Fps.Spectators
import Zuckerserv.Fps.Masters
import Zuckerserv.Fps.ReservedSlots
import Zuckerserv.Fps.Names
import Zuckerserv.Fps.SavedScores
import Zuckerserv.Fps.DiscRecords
import Zuckerserv.Fps.TeamBalance
import Zuckerserv.Fps.ClientCounts
import Zuckerserv.Fps.Demo
import Zuckerserv.Shared.BigText
import Zuckerserv.Shared.BigLeft
import Zuckerserv.Shared.Sort
import Zuckerserv.Net.BanMerge
import Zuckerserv.Net.PrefixParse
import Zuckerserv.Auth.AuthInput
import Zuckerserv.Auth.AuthCompletions
import Zuckerserv.Auth.AuthReplies
import Zuckerserv.Auth.AuthChallenges
import Zuckerserv.Auth.TextDb
import Zuckerserv.Auth.UserSync
import Zuckerserv.Script.CommandLine
import Zuckerserv.Script.MapBattle
import Zuckerserv.Script.BotBalance
import Zuckerserv.Script.FakeCns
import Zuckerserv.Script.EventDispatch
import Zuckerserv.Script.EventListeners
import Zuckerserv.Script.Journal
import Zuckerserv.Script.Bans
import Zuckerserv.Script.VoteKick
import Zuckerserv.Script.DeferredLaw
import Zuckerserv.Enet.Link
import Zuckerserv.Enet.Untrusted
import Zuckerserv.Enet.Unsequenced
import Zuckerserv.Fps.Packets
