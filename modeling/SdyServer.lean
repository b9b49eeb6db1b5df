import SdyServer.Lib.LuaTable
import SdyServer.Lib.Blocks
import SdyServer.Lib.ThreeWay
import SdyServer.Lib.Run
import SdyServer.Lib.Lua
import SdyServer.Lib.Bytes
import SdyServer.Daboluo.Card
import SdyServer.Daboluo.Category
import SdyServer.Daboluo.Compare
import SdyServer.Daboluo.Room
import SdyServer.Daboluo.Score
import SdyServer.Daboluo.CompareSwap
import SdyServer.Daboluo.CompareOrder
import SdyServer.Daboluo.FoulFive
import SdyServer.Daboluo.PairScore
import SdyServer.Daboluo.ScoreZeroSum
import SdyServer.Daboluo.Groups
import SdyServer.Daboluo.Pile
import SdyServer.Daboluo.GroupsExact
import SdyServer.Daboluo.BlockRows
import SdyServer.Daboluo.TopRows
import SdyServer.Daboluo.StraightRows
import SdyServer.Daboluo.FlushRows
import SdyServer.Daboluo.Completions
import SdyServer.Daboluo.Submit
import SdyServer.Daboluo.SubmitSound
import SdyServer.Daboluo.DeclaredTypes
import SdyServer.Daboluo.Auto
import SdyServer.Daboluo.OneDeck
import SdyServer.Daboluo.Special
import SdyServer.Daboluo.Arranged
import SdyServer.Daboluo.SpecialExact
import SdyServer.Daboluo.SpecialShown
import SdyServer.Lib.Arrays
import SdyServer.Daboluo.DelCards
import SdyServer.Daboluo.SubmitExact
import SdyServer.Daboluo.Honest
import SdyServer.Daboluo.AutoPlay
import SdyServer.Daboluo.Machine
import SdyServer.Daboluo.Deal
import SdyServer.Daboluo.CompareReady
import SdyServer.Daboluo.Agent
import SdyServer.Daboluo.SeatMap
import SdyServer.Daboluo.RealUsers
import SdyServer.Daboluo.Vote
import SdyServer.User.Account
import SdyServer.User.Balance
import SdyServer.User.Overdraw
import SdyServer.User.Booking
import SdyServer.RoomMgr.Hall
import SdyServer.RoomMgr.Membership
import SdyServer.RoomMgr.Online
import SdyServer.Protocol.Message
import SdyServer.Protocol.RoundTrip
import SdyServer.Poker.Score
import SdyServer.Poker.PairScore
import SdyServer.Poker.HomeRun
import SdyServer.Poker.CompareStep
import SdyServer.Hongbao.Packet
import SdyServer.Hongbao.Room
import SdyServer.Hongbao.Result
import SdyServer.Hongbao.Average
import SdyServer.Hongbao.WinningStreak
import SdyServer.Hongbao.StreakRun
import SdyServer.Hongbao.DailyRebate
import SdyServer.Lib.Roll
import SdyServer.Hongbao.Points
import SdyServer.Hongbao.Split
import SdyServer.Hongbao.Enough
import SdyServer.Hongbao.Handlers
import SdyServer.Hongbao.Betting
import SdyServer.Hongbao.Machine
import SdyServer.Hongbao.Cheat
import SdyServer.Hongbao.Chosen
import SdyServer.Hongbao.Assign
import SdyServer.Hongbao.Dealt
import SdyServer.Hongbao.Desk
import SdyServer.Hongbao.DeskInv
import SdyServer.Hongbao.Serial
import SdyServer.Hongbao.Settle
import SdyServer.Hongbao.SerialRun
import SdyServer.Hongbao.Ledger
import SdyServer.Hongbao.Escrow
import SdyServer.Hongbao.BetsClosed
import SdyServer.Hongbao.Solvency
import SdyServer.Hongbao.Conserve
import SdyServer.Hongbao.Bids
import SdyServer.Hongbao.Stored
import SdyServer.Hongbao.StepDown
import SdyServer.Pk10.Result
import SdyServer.Pk10.Room
import SdyServer.Pk10.Machine
import SdyServer.Pk10.ResultSum
import SdyServer.Pk10.Cents
import SdyServer.Pk10.Transfers
import SdyServer.Pk10.Ranking
import SdyServer.Pk10.Matching
import SdyServer.Pk10.Sharing
import SdyServer.Pk10.Books
import SdyServer.Pk10.Agreement
import SdyServer.Pk10.Rounds
import SdyServer.Pk10.Stored
import SdyServer.Web.SignIn
import SdyServer.Web.Streak
import SdyServer.Web.Rebate
import SdyServer.Lib.Rows
import SdyServer.Club.Fund
import SdyServer.Club.Members
import SdyServer.Club.Roles
import SdyServer.Lib.LongestMatch
import SdyServer.Common.MsgParser
import SdyServer.Common.Masking
import SdyServer.Common.DbMgr
import SdyServer.Common.Statements
import SdyServer.Lib.Tiles
import SdyServer.Lib.SqlTokens
import SdyServer.Common.Utf8
import SdyServer.Lib.Weights
import SdyServer.Lib.Windows
import SdyServer.Daboluo.Variety
import SdyServer.Daboluo.JokerSets
import SdyServer.Daboluo.JokerSuits
import SdyServer.Daboluo.JokerPile
import SdyServer.Daboluo.JokerStraights
import SdyServer.Daboluo.JokerSearch
import SdyServer.Daboluo.JokerHands
import SdyServer.Daboluo.VarietyExact
import SdyServer.Guessing.Room
import SdyServer.Guessing.Stakes
import SdyServer.Guessing.Games
import SdyServer.Guessing.Stored
import SdyServer.Guessing.Settlement
import SdyServer.Guessing.Punches
import SdyServer.Hongbao.Failure
import SdyServer.FailedSettlement
import SdyServer.Robots
import SdyServer.Skynet.GateExact
import SdyServer.Skynet.QueueExact
import SdyServer.Skynet.TimerExact
import SdyServer.Skynet.SchedulerExact
import SdyServer.Skynet.SeriExact
import SdyServer.Skynet.RpcExact
